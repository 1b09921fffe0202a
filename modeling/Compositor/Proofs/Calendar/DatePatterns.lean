/-
# How date patterns are read

Every text is read as a pattern in one way only: as runs of a letter, quotes,
doubled apostrophes and other characters, and at most one quote at its end
that nothing closes. The parts of a pattern are those of its pieces, one after
the other, and it has none if a quote is not closed or a letter stands for no
field.

The percent form of the parts is read back as the very parts: no character
of a literal is taken for a specifier, and no specifier is unknown.

Key definitions: `Piece`, `Piece.Fits`, `Reads`, `readPercent?`, `strftime?`.
Key theorems: `exists_reads`, `Reads.unique`, `Reads.partsOf_eq`,
`readPercent?_percentForm`, `format_reads`.
-/
import Compositor.Calendar.DatePattern

namespace Compositor.DatePattern

/-! ### Quoted text -/

/-- A text with every apostrophe doubled, as it is written in a quote. -/
def doubled (text : List Char) : List Char :=
  text.flatMap fun c => if c = '\'' then ['\'', '\''] else [c]

@[simp] theorem doubled_nil : doubled [] = [] := rfl

theorem doubled_cons (c : Char) (text : List Char) :
    doubled (c :: text) = (if c = '\'' then ['\'', '\''] else [c]) ++ doubled text := rfl

theorem head?_doubled (text : List Char) : (doubled text).head? = text.head? := by
  cases text with
  | nil => rfl
  | cons c text => by_cases hc : c = '\'' <;> simp [doubled_cons, hc]

theorem quoted?_apostrophe {rest : List Char} (h : rest.head? ≠ some '\'') :
    quoted? ('\'' :: rest) = some ([], rest) := by
  cases rest with
  | nil => rfl
  | cons c rest => simp_all [quoted?]

/-- A quote is read up to the first apostrophe that stands alone. -/
theorem quoted?_doubled (text : List Char) {rest : List Char} (h : rest.head? ≠ some '\'') :
    quoted? (doubled text ++ '\'' :: rest) = some (text, rest) := by
  induction text with
  | nil => exact quoted?_apostrophe h
  | cons c text ih => by_cases hc : c = '\'' <;> simp [doubled_cons, hc, quoted?, ih]

theorem quoted?_unclosed (text : List Char) : quoted? (doubled text) = none := by
  induction text with
  | nil => rfl
  | cons c text ih => by_cases hc : c = '\'' <;> simp [doubled_cons, hc, quoted?, ih]

theorem eq_doubled_of_quoted? {s text rest : List Char} (h : quoted? s = some (text, rest)) :
    s = doubled text ++ '\'' :: rest ∧ rest.head? ≠ some '\'' := by
  fun_induction quoted? s generalizing text rest with
  | case1 => cases h
  | case2 s ih =>
    obtain ⟨⟨t, r⟩, ht, he⟩ := Option.map_eq_some_iff.1 h
    cases he
    obtain ⟨rfl, hr⟩ := ih ht
    exact ⟨by simp [doubled_cons], hr⟩
  | case3 s hne =>
    cases h
    refine ⟨rfl, fun hs => ?_⟩
    obtain ⟨s', rfl⟩ := List.head?_eq_some_iff.mp hs
    exact hne s' rfl
  | case4 c s _ hc ih =>
    obtain ⟨⟨t, r⟩, ht, he⟩ := Option.map_eq_some_iff.1 h
    cases he
    obtain ⟨rfl, hr⟩ := ih ht
    exact ⟨by simp_all [doubled_cons], hr⟩

theorem exists_doubled_of_quoted? {s : List Char} (h : quoted? s = none) :
    ∃ text, s = doubled text := by
  fun_induction quoted? s with
  | case1 => exact ⟨[], rfl⟩
  | case2 s ih =>
    obtain ⟨text, rfl⟩ := ih (Option.map_eq_none_iff.mp h)
    exact ⟨'\'' :: text, by simp [doubled_cons]⟩
  | case3 => cases h
  | case4 c s _ hc ih =>
    obtain ⟨text, rfl⟩ := ih (Option.map_eq_none_iff.mp h)
    exact ⟨c :: text, by simp_all [doubled_cons]⟩

/-! ### The pieces of a text -/

/-- A piece of a pattern: two apostrophes, a quote with its text, a run of a
letter with the number of its further copies, another character, or what
follows the apostrophe of a quote that is not closed. -/
inductive Piece where
  | apostrophe
  | quote (text : List Char)
  | run (letter : Char) (more : Nat)
  | other (c : Char)
  | unclosed (inner : List Char)
  deriving Repr, DecidableEq

namespace Piece

/-- A piece as it stands in the pattern. -/
def written : Piece → List Char
  | apostrophe => ['\'', '\'']
  | quote text => '\'' :: doubled text ++ ['\'']
  | run letter more => List.replicate (more + 1) letter
  | other c => [c]
  | unclosed inner => '\'' :: inner

/-- Can the piece stand before `rest`? A quote starts with no apostrophe and
ends before none, a run goes on for as long as it can, and a quote that is
not closed goes on to the end with all its apostrophes doubled. -/
def Fits : Piece → List Char → Prop
  | apostrophe, _ => True
  | quote text, rest => text ≠ [] ∧ text.head? ≠ some '\'' ∧ rest.head? ≠ some '\''
  | run letter _, rest => letter.isAlpha = true ∧ rest.head? ≠ some letter
  | other c, _ => c.isAlpha = false ∧ c ≠ '\''
  | unclosed inner, rest => inner.head? ≠ some '\'' ∧ (∃ text, inner = doubled text) ∧ rest = []

end Piece

/-- A text is read as the pieces. -/
inductive Reads : List Char → List Piece → Prop
  | nil : Reads [] []
  | cons {p : Piece} {rest : List Char} {ps : List Piece} :
    p.Fits rest → Reads rest ps → Reads (p.written ++ rest) (p :: ps)

theorem Piece.written_ne_nil (p : Piece) : p.written ≠ [] := by
  cases p <;> simp [written]

/-- The copies of a letter at the start of a text, and what follows them. -/
theorem eq_replicate_append (c : Char) (s : List Char) :
    ∃ n rest, s = List.replicate n c ++ rest ∧ rest.head? ≠ some c := by
  induction s with
  | nil => exact ⟨0, [], rfl, nofun⟩
  | cons b s ih =>
    by_cases hb : b = c
    · obtain ⟨n, rest, rfl, hrest⟩ := ih
      exact ⟨n + 1, rest, by rw [hb]; rfl, hrest⟩
    · exact ⟨0, b :: s, rfl, by simpa using hb⟩

theorem exists_piece {s : List Char} (hs : s ≠ []) :
    ∃ p rest, s = Piece.written p ++ rest ∧ p.Fits rest := by
  obtain ⟨c, s, rfl⟩ := List.exists_cons_of_ne_nil hs
  by_cases hc : c = '\''
  · subst hc
    by_cases hhead : s.head? = some '\''
    · obtain ⟨rest, rfl⟩ := List.head?_eq_some_iff.mp hhead
      exact ⟨.apostrophe, rest, rfl, trivial⟩
    cases hq : quoted? s with
    | none =>
      exact ⟨.unclosed s, [], by simp [Piece.written], hhead, exists_doubled_of_quoted? hq, rfl⟩
    | some q =>
      obtain ⟨text, rest⟩ := q
      obtain ⟨rfl, hrest⟩ := eq_doubled_of_quoted? hq
      refine ⟨.quote text, rest, by simp [Piece.written], ?_, ?_, hrest⟩
      · rintro rfl
        simp at hhead
      · intro htext
        rw [← head?_doubled] at htext
        simp [htext] at hhead
  by_cases halpha : c.isAlpha = true
  · obtain ⟨n, rest, rfl, hrest⟩ := eq_replicate_append c s
    exact ⟨.run c n, rest, by simp [Piece.written, List.replicate_succ], halpha, hrest⟩
  · exact ⟨.other c, s, rfl, by simpa using halpha, hc⟩

/-- Every text is read as some pieces. -/
theorem exists_reads (s : List Char) : ∃ ps, Reads s ps := by
  by_cases hs : s = []
  · exact ⟨[], hs ▸ .nil⟩
  · obtain ⟨p, rest, rfl, hfits⟩ := exists_piece hs
    obtain ⟨ps, hps⟩ := exists_reads rest
    exact ⟨p :: ps, .cons hfits hps⟩
termination_by s.length
decreasing_by
  have := List.length_pos_iff.mpr p.written_ne_nil
  subst_vars
  rw [List.length_append]
  omega

/-! ### One reading only -/

/-- The first piece of a text and what follows it. -/
def firstPiece? : List Char → Option (Piece × List Char)
  | [] => none
  | '\'' :: '\'' :: rest => some (.apostrophe, rest)
  | '\'' :: inner =>
    match quoted? inner with
    | none => some (.unclosed inner, [])
    | some (text, rest) => some (.quote text, rest)
  | c :: rest =>
    if c.isAlpha then
      some (.run c (rest.takeWhile (· = c)).length, rest.dropWhile (· = c))
    else some (.other c, rest)

theorem takeWhile_replicate_append {c : Char} (n : Nat) {rest : List Char}
    (h : rest.head? ≠ some c) :
    (List.replicate n c ++ rest).takeWhile (· = c) = List.replicate n c ∧
      (List.replicate n c ++ rest).dropWhile (· = c) = rest := by
  induction n with
  | zero => cases rest <;> simp_all
  | succ n ih => simpa [List.replicate_succ] using ih

theorem firstPiece?_quote {inner : List Char} (h : inner.head? ≠ some '\'') :
    firstPiece? ('\'' :: inner) =
      match quoted? inner with
      | none => some (.unclosed inner, [])
      | some (text, rest) => some (.quote text, rest) := by
  cases inner with
  | nil => rfl
  | cons c inner => simp_all [firstPiece?]

theorem firstPiece?_written {p : Piece} {rest : List Char} (h : p.Fits rest) :
    firstPiece? (p.written ++ rest) = some (p, rest) := by
  cases p with
  | apostrophe => rfl
  | quote text =>
    obtain ⟨hne, hhead, hrest⟩ := h
    have hinner : (doubled text ++ '\'' :: rest).head? ≠ some '\'' := by
      cases text with
      | nil => exact absurd rfl hne
      | cons c text => by_cases hc : c = '\'' <;> simp_all [doubled_cons]
    simp [Piece.written, firstPiece?_quote hinner, quoted?_doubled text hrest]
  | run letter more =>
    obtain ⟨halpha, hrest⟩ := h
    have hletter : letter ≠ '\'' := by rintro rfl; simp at halpha
    obtain ⟨htake, hdrop⟩ := takeWhile_replicate_append more hrest
    simp [Piece.written, List.replicate_succ, firstPiece?, halpha, hletter, htake, hdrop]
  | other c =>
    obtain ⟨halpha, hc⟩ := h
    simp [Piece.written, firstPiece?, halpha, hc]
  | unclosed inner =>
    obtain ⟨hhead, ⟨text, rfl⟩, rfl⟩ := h
    simp [Piece.written, firstPiece?_quote hhead, quoted?_unclosed]

/-- A text is read in one way only. -/
theorem Reads.unique {s : List Char} {ps ps' : List Piece} (h : Reads s ps) (h' : Reads s ps') :
    ps = ps' := by
  induction h generalizing ps' with
  | nil =>
    generalize hs : ([] : List Char) = s at h'
    cases h' with
    | nil => rfl
    | cons _ _ => exact absurd (List.append_eq_nil_iff.mp hs.symm).1 (Piece.written_ne_nil _)
  | @cons p rest ps hfits _ ih =>
    generalize hs : p.written ++ rest = s at h'
    cases h' with
    | nil => exact absurd (List.append_eq_nil_iff.mp hs).1 (Piece.written_ne_nil _)
    | cons hfits' hreads' =>
      have hfirst := firstPiece?_written hfits
      rw [hs, firstPiece?_written hfits'] at hfirst
      cases hfirst
      rw [ih hreads']

/-! ### What the pieces stand for -/

namespace Piece

/-- Why a piece of `pattern` stands for nothing. -/
def fault? (pattern : String) : Piece → Option Fault
  | run letter more =>
    if (field? letter (more + 1)).isSome then none else some (.unsupportedLetter letter pattern)
  | unclosed _ => some (.unterminatedQuote pattern)
  | _ => none

/-- The parts that a piece stands for. -/
def parts : Piece → List Part
  | apostrophe => [.literal '\'']
  | quote text => text.map .literal
  | run letter more => ((field? letter (more + 1)).map Part.field).toList
  | other c => [.literal c]
  | unclosed _ => []

/-- A piece filled in for a moment: a run is the field that it stands for,
and all the rest is taken as it is. -/
def render (m : Moment) : Piece → String
  | apostrophe => "'"
  | quote text => String.ofList text
  | run letter more => ((field? letter (more + 1)).map (·.render m)).getD ""
  | other c => c.toString
  | unclosed _ => ""

end Piece

/-- The letters that stand for a field. -/
def fieldLetters : List Char := ['y', 'M', 'd', 'H', 'h', 'm', 's', 'S', 'a', 'E']

namespace Piece

/-- Is the piece closed, and if it is a run, one of a letter that stands for
a field? -/
def IsSupported : Piece → Prop
  | run letter _ => letter ∈ fieldLetters
  | unclosed _ => False
  | _ => True

end Piece

theorem field?_isSome_iff (letter : Char) (run : Nat) :
    (field? letter run).isSome = true ↔ letter ∈ fieldLetters := by
  fun_cases field? letter run <;> simp_all [fieldLetters]

theorem Piece.fault?_eq_none_iff (pattern : String) (p : Piece) :
    p.fault? pattern = none ↔ p.IsSupported := by
  cases p with
  | run letter more =>
    rw [IsSupported, ← field?_isSome_iff letter (more + 1), fault?]
    split <;> simp_all
  | _ => simp [fault?, IsSupported]

theorem render_append (m : Moment) (ps qs : List Part) :
    render m (ps ++ qs) = render m ps ++ render m qs := by
  rw [render, List.map_append, String.join_append, ← render, ← render]

theorem render_literals (m : Moment) (text : List Char) :
    render m (text.map .literal) = String.ofList text := by
  apply String.toList_inj.mp
  rw [render, String.toList_join, String.toList_ofList]
  induction text with
  | nil => rfl
  | cons c text ih => simpa [Part.render] using ih

theorem Piece.render_parts (m : Moment) (p : Piece) :
    DatePattern.render m p.parts = p.render m := by
  cases p with
  | apostrophe => rfl
  | quote text => exact render_literals m text
  | run letter more => cases hf : field? letter (more + 1) <;>
      simp [parts, Piece.render, DatePattern.render, Part.render, hf]
  | other c => simp [parts, Piece.render, DatePattern.render, Part.render]
  | unclosed => rfl

theorem render_flatMap_parts (m : Moment) (ps : List Piece) :
    render m (ps.flatMap Piece.parts) = String.join (ps.map (·.render m)) := by
  induction ps with
  | nil => rfl
  | cons p ps ih =>
    rw [List.flatMap_cons, render_append, Piece.render_parts, ih, List.map_cons, String.join_cons]

/-- The parts of a text are those of its first piece and those of what
follows it. -/
theorem partsOf_eq (pattern : String) (s : List Char) :
    partsOf pattern s =
      match firstPiece? s with
      | none => .ok []
      | some (p, rest) =>
        match p.fault? pattern with
        | some fault => .error fault
        | none => (partsOf pattern rest).map (p.parts ++ ·) := by
  fun_cases partsOf pattern s with
  | case1 => rfl
  | case2 rest => simp [firstPiece?, Piece.parts, Piece.fault?]
  | case3 inner hne hq => simp_all [firstPiece?, Piece.fault?]
  | case4 inner hne text rest hq => simp_all [firstPiece?, Piece.parts, Piece.fault?]
  | case5 c rest hne hc halpha hf =>
    rw [Nat.add_comm] at hf
    simp_all [firstPiece?, Piece.fault?]
  | case6 c rest hne hc halpha f hf =>
    rw [Nat.add_comm] at hf
    simp_all [firstPiece?, Piece.parts, Piece.fault?]
  | case7 c rest hne hc halpha => simp_all [firstPiece?, Piece.parts, Piece.fault?]

/-- A text that is read as some pieces has their parts, or the fault of the
first one that has any. -/
theorem Reads.partsOf_eq {s : List Char} {ps : List Piece} (h : Reads s ps) (pattern : String) :
    partsOf pattern s =
      match ps.findSome? (·.fault? pattern) with
      | some fault => .error fault
      | none => .ok (ps.flatMap Piece.parts) := by
  induction h with
  | nil => rw [DatePattern.partsOf_eq]; rfl
  | @cons p rest ps hfits _ ih =>
    rw [DatePattern.partsOf_eq, firstPiece?_written hfits, List.findSome?_cons]
    cases hfault : p.fault? pattern with
    | some fault => simp [hfault]
    | none => cases hrest : ps.findSome? (·.fault? pattern) <;>
      simp [hfault, hrest, ih, Except.map]

/-! ### Percent forms -/

/-- The field of a specifier after its percent sign, and what follows it. -/
def specifier? : List Char → Option (Field × List Char)
  | 'Y' :: s => some (.year, s)
  | 'y' :: s => some (.yearOfCentury, s)
  | '-' :: 'm' :: s => some (.month, s)
  | 'm' :: s => some (.monthTwoDigits, s)
  | 'b' :: s => some (.monthShortName, s)
  | 'B' :: s => some (.monthName, s)
  | '-' :: 'd' :: s => some (.day, s)
  | 'd' :: s => some (.dayTwoDigits, s)
  | '-' :: 'H' :: s => some (.hour, s)
  | 'H' :: s => some (.hourTwoDigits, s)
  | '-' :: 'I' :: s => some (.hour12, s)
  | 'I' :: s => some (.hour12TwoDigits, s)
  | '-' :: 'M' :: s => some (.minute, s)
  | 'M' :: s => some (.minuteTwoDigits, s)
  | '-' :: 'S' :: s => some (.second, s)
  | 'S' :: s => some (.secondTwoDigits, s)
  | '3' :: 'f' :: s => some (.millisecond, s)
  | 'p' :: s => some (.halfOfDay, s)
  | 'a' :: s => some (.weekdayShortName, s)
  | 'A' :: s => some (.weekdayName, s)
  | _ => none

theorem length_lt_of_specifier? {s rest : List Char} {f : Field}
    (h : specifier? s = some (f, rest)) : rest.length < s.length := by
  unfold specifier? at h
  split at h <;> cases h <;> simp only [List.length_cons] <;> omega

/-- The parts that a text in percent specifiers is read as; `none` if a percent
sign is followed by neither a specifier nor another percent sign. -/
def readPercent? (s : List Char) : Option (List Part) :=
  match s with
  | [] => some []
  | '%' :: '%' :: rest => (readPercent? rest).map (.literal '%' :: ·)
  | '%' :: rest =>
    match _h : specifier? rest with
    | none => none
    | some (f, rest') => (readPercent? rest').map (.field f :: ·)
  | c :: rest => (readPercent? rest).map (.literal c :: ·)
termination_by s.length
decreasing_by
  · simp only [List.length_cons]
    omega
  · have := length_lt_of_specifier? _h
    simp only [List.length_cons]
    omega
  · simp

/-- A moment in a form of percent specifiers. -/
def strftime? (m : Moment) (form : String) : Option String :=
  (readPercent? form.toList).map (render m)

theorem specifier?_percentForm (f : Field) :
    ∃ form, f.percentForm.toList = '%' :: form ∧
      ∀ rest, specifier? (form ++ rest) = some (f, rest) := by
  cases f <;> exact ⟨_, rfl, fun _ => rfl⟩

theorem readPercent?_specifier {s rest : List Char} {f : Field}
    (h : specifier? s = some (f, rest)) :
    readPercent? ('%' :: s) = (readPercent? rest).map (.field f :: ·) := by
  have hs : ∀ t, s ≠ '%' :: t := by
    rintro t rfl
    simp [specifier?] at h
  rw [readPercent?.eq_def]
  split
  · simp_all
  · simp_all
  · split <;> simp_all
  · grind

theorem readPercent?_literal (c : Char) (s : List Char) :
    readPercent? ((Part.literal c).percentForm.toList ++ s) =
      (readPercent? s).map (.literal c :: ·) := by
  by_cases hc : c = '%' <;> simp [Part.percentForm, hc, readPercent?]

/-- A percent form is read as the parts that it was made of. -/
theorem readPercent?_percentForm (parts : List Part) :
    readPercent? (percentForm parts).toList = some parts := by
  induction parts with
  | nil => simp [percentForm, readPercent?]
  | cons p parts ih =>
    rw [percentForm, List.map_cons, String.join_cons, ← percentForm, String.toList_append]
    cases p with
    | literal c => rw [readPercent?_literal, ih, Option.map_some]
    | field f =>
      obtain ⟨form, hform, hspecifier⟩ := specifier?_percentForm f
      rw [Part.percentForm, hform, List.cons_append,
        readPercent?_specifier (hspecifier _), ih, Option.map_some]

theorem strftime?_percentForm (m : Moment) (parts : List Part) :
    strftime? m (percentForm parts) = some (render m parts) := by
  rw [strftime?, readPercent?_percentForm, Option.map_some]

/-! ### Patterns filled in -/

theorem Reads.format_eq {pattern : String} {ps : List Piece} (h : Reads pattern.toList ps)
    (m : Moment) :
    format m pattern =
      match ps.findSome? (·.fault? pattern) with
      | some fault => .error fault
      | none => .ok (String.join (ps.map (·.render m))) := by
  rw [format, parse, h.partsOf_eq]
  cases ps.findSome? (·.fault? pattern) with
  | some fault => rfl
  | none => simp [Except.map, render_flatMap_parts]

theorem Reads.format_ok_iff {pattern : String} {ps : List Piece} (h : Reads pattern.toList ps)
    (m : Moment) (text : String) :
    format m pattern = .ok text ↔
      (∀ p ∈ ps, p.IsSupported) ∧ text = String.join (ps.map (·.render m)) := by
  have hnone : ps.findSome? (·.fault? pattern) = none ↔ ∀ p ∈ ps, p.IsSupported := by
    simp only [List.findSome?_eq_none_iff, Piece.fault?_eq_none_iff]
  rw [h.format_eq, ← hnone]
  cases ps.findSome? (·.fault? pattern) <;> simp [eq_comm]

/-- Apostrophes at the start of a quoted text are read as pieces of their own. -/
theorem reads_quoted (k : Nat) {text : List Char} (hne : text ≠ [])
    (hhead : text.head? ≠ some '\'') :
    Reads ('\'' :: doubled (List.replicate k '\'' ++ text) ++ ['\''])
      (List.replicate k .apostrophe ++ [.quote text]) := by
  induction k with
  | zero =>
    have h : Reads ((Piece.quote text).written ++ []) [.quote text] :=
      .cons ⟨hne, hhead, nofun⟩ .nil
    simpa [Piece.written] using h
  | succ k ih =>
    have h := Reads.cons (p := .apostrophe) trivial ih
    simpa [Piece.written, List.replicate_succ, doubled_cons] using h

/-- A text that is not all apostrophes, put in quotes, stands for itself. -/
theorem format_quoted (m : Moment) {s : String} (h : ∃ c ∈ s.toList, c ≠ '\'') :
    format m (String.ofList ('\'' :: doubled s.toList ++ ['\''])) = .ok s := by
  obtain ⟨k, text, hs, hhead⟩ := eq_replicate_append '\'' s.toList
  have hne : text ≠ [] := by
    rintro rfl
    obtain ⟨c, hc, hne⟩ := h
    rw [hs] at hc
    simp at hc
    exact hne hc.2
  have hreads := reads_quoted k hne hhead
  rw [← hs] at hreads
  rw [Reads.format_ok_iff (by simpa using hreads)]
  refine ⟨fun p hp => ?_, ?_⟩
  · rcases List.mem_append.mp hp with hp | hp
    · rw [List.eq_of_mem_replicate hp]
      trivial
    · rw [List.mem_singleton.mp hp]
      trivial
  · apply String.toList_inj.mp
    simp [hs, Piece.render, String.toList_join, List.flatMap_replicate]

/-- **A date pattern is read in one way, and filled in piece by piece.** It
stands for something just if every quote is closed and every run is one of a
letter that stands for a field. The text is then that of the pieces, one after
the other, and the percent form gives it too. A text that is not all
apostrophes can be quoted. -/
theorem format_reads (m : Moment) (pattern : String) :
    ∃ ps, Reads pattern.toList ps ∧ (∀ ps', Reads pattern.toList ps' → ps' = ps) ∧
      ((format m pattern).isOk = true ↔ ∀ p ∈ ps, p.IsSupported) ∧
      (∀ text, format m pattern = .ok text → text = String.join (ps.map (·.render m))) ∧
      (∀ parts, parse pattern = .ok parts →
        ∃ text, strftime? m (percentForm parts) = some text ∧ format m pattern = .ok text) ∧
      ∀ s : String, (∃ c ∈ s.toList, c ≠ '\'') →
        format m (String.ofList ('\'' :: doubled s.toList ++ ['\''])) = .ok s := by
  obtain ⟨ps, hps⟩ := exists_reads pattern.toList
  refine ⟨ps, hps, fun ps' hps' => hps'.unique hps, ?_, fun text h => ?_, fun parts h => ?_,
    fun s hs => format_quoted m hs⟩
  · constructor
    · intro hok
      cases hformat : format m pattern with
      | error fault => simp [hformat, Except.isOk, Except.toBool] at hok
      | ok text => exact ((hps.format_ok_iff m text).mp hformat).1
    · intro hsupported
      rw [(hps.format_ok_iff m _).mpr ⟨hsupported, rfl⟩]
      rfl
  · exact ((hps.format_ok_iff m text).mp h).2
  · exact ⟨render m parts, strftime?_percentForm m parts, by rw [format, h]; rfl⟩

/-- A quote before two runs and a percent sign, and a quoted apostrophe. -/
theorem format_weekOf :
    strftime? ⟨2024, 3, 5, 14, 7, 9, 0⟩ "week of %d.%m, 100%%" = some "week of 05.03, 100%" ∧
      format ⟨2024, 3, 5, 14, 7, 9, 0⟩ "'week of' dd.MM, 100%" = .ok "week of 05.03, 100%" ∧
      format ⟨2024, 3, 5, 14, 7, 9, 0⟩ "'it''s'" = .ok "it's" := by
  have hform : strftime? ⟨2024, 3, 5, 14, 7, 9, 0⟩ "week of %d.%m, 100%%" =
      some "week of 05.03, 100%" := by decide +kernel
  have hparse : ((parse "'week of' dd.MM, 100%").toOption.map percentForm) =
      some "week of %d.%m, 100%%" := by decide +kernel
  obtain ⟨_, _, _, _, _, hpercent, hquoted⟩ :=
    format_reads ⟨2024, 3, 5, 14, 7, 9, 0⟩ "'week of' dd.MM, 100%"
  cases hparts : parse "'week of' dd.MM, 100%" with
  | error fault => simp [hparts, Except.toOption] at hparse
  | ok parts =>
    obtain ⟨text, htext, hformat⟩ := hpercent parts hparts
    have hwritten : percentForm parts = "week of %d.%m, 100%%" := by
      simpa [hparts, Except.toOption] using hparse
    rw [hwritten, hform] at htext
    cases htext
    exact ⟨hform, hformat, hquoted "it's" ⟨'i', by decide, by decide⟩⟩

end Compositor.DatePattern
