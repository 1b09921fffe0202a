/-
# Values read back

What is written for a value is cut into the value's tokens, however far its
lines stand in, and from these tokens the reader makes the value again,
whatever is open around it. So a value that can be written is read back.

Key definitions: `Json.Printable`, `Json.tokens`, `Json.Lexes`,
`Json.ReadBack`.
Key theorems: `lexes_chars`, `run_tokens`, `parse?_print`.
-/
import Compositor.Proofs.Json.Numerals
import Compositor.Proofs.Json.Strings

namespace Compositor.Json

/-- The values that are read back: their strings and keys have a text, and
their numbers are written without a power of ten. -/
inductive Printable : Json → Prop where
  | null : Printable null
  | bool (b : Bool) : Printable (bool b)
  | number {n : Numeral} (h : n.IsProper) : Printable (number n)
  | string (s : String) : Printable (str s)
  | array {vs : List Json} (h : ∀ v ∈ vs, Printable v) : Printable (array vs)
  | object {ms : List (Option String × Json)} (hkeys : ∀ m ∈ ms, m.1.isSome = true)
      (h : ∀ m ∈ ms, Printable m.2) : Printable (object ms)

/-! ### The tokens of a value -/

/-- What stands between an item and what follows it. -/
def separator (isLast : Bool) : List Token := if isLast then [] else [.comma]

mutual

/-- The tokens that a value is written with. -/
def tokens : Json → List Token
  | array vs => .openArray :: itemTokens vs ++ [.closeArray]
  | object ms => .openObject :: memberTokens ms ++ [.closeObject]
  | null => [.scalar null]
  | bool b => [.scalar (bool b)]
  | number n => [.scalar (number n)]
  | string text? => [.string text?]

/-- The tokens of the items of an array. -/
def itemTokens : List Json → List Token
  | [] => []
  | v :: vs => v.tokens ++ separator vs.isEmpty ++ itemTokens vs

/-- The tokens of the members of an object. -/
def memberTokens : List (Option String × Json) → List Token
  | [] => []
  | (k, v) :: ms => .string k :: .colon :: v.tokens ++ separator ms.isEmpty ++ memberTokens ms

end

/-! ### Cutting a text into tokens -/

theorem tokens?_eq (s : List Char) :
    tokens? s =
      if (skipSpace s).isEmpty then some []
      else (token? (skipSpace s)).bind fun (t, rest) => (tokens? rest).map (t :: ·) := by
  rw [tokens?]
  split
  · rfl
  · split
    · rename_i hnone
      rw [hnone]
      rfl
    · rename_i hsome
      rw [hsome]
      rfl

/-- In front of `rest` the text is cut into the tokens `ts`. -/
def Lexes (s : List Char) (ts : List Token) (rest : List Char) : Prop :=
  tokens? (s ++ rest) = (tokens? rest).map (ts ++ ·)

namespace Lexes

variable {s s' rest : List Char} {ts ts' : List Token}

theorem nil (rest : List Char) : Lexes [] [] rest := (congrFun Option.map_id _).symm

theorem append (h : Lexes s ts (s' ++ rest)) (h' : Lexes s' ts' rest) :
    Lexes (s ++ s') (ts ++ ts') rest := by
  have hjoin : (ts ++ ·) ∘ (ts' ++ ·) = (ts ++ ts' ++ ·) :=
    funext fun us => (List.append_assoc ts ts' us).symm
  unfold Lexes at h h' ⊢
  rw [List.append_assoc, h, h', Option.map_map, hjoin]

/-- Blanks before a token do not matter. -/
theorem blanks (h : ∀ c ∈ s, isSpace c = true) (rest : List Char) : Lexes s [] rest := by
  have hskip : skipSpace (s ++ rest) = skipSpace rest := List.dropWhile_append_of_pos h
  unfold Lexes
  rw [tokens?_eq, hskip, ← tokens?_eq]
  exact nil rest

/-- The token at the head of a text is the first of its tokens. -/
theorem token {c : Char} {t : Token} (hc : isSpace c = false)
    (h : token? (c :: s ++ rest) = some (t, rest)) : Lexes (c :: s) [t] rest := by
  have hskip : skipSpace (c :: s ++ rest) = c :: s ++ rest :=
    List.dropWhile_cons_of_neg (Bool.eq_false_iff.mp hc)
  unfold Lexes
  rw [tokens?_eq, hskip, h]
  rfl

end Lexes

theorem lexes_indent (depth : Nat) (rest : List Char) : Lexes (indent depth) [] rest := by
  refine .blanks (fun c hc => ?_) rest
  rw [(List.mem_replicate.mp hc).2]
  rfl

theorem lexes_newline (rest : List Char) : Lexes ['\n'] [] rest :=
  .blanks (fun _ hc => List.mem_singleton.mp hc ▸ rfl) rest

/-- What is written over several lines between brackets. -/
theorem Lexes.bracketed {depth : Nat} {opening closing : Char} {s rest : List Char}
    {ts : List Token} {t t' : Token} (hopen : ∀ rest, Lexes [opening] [t] rest)
    (hclose : ∀ rest, Lexes [closing] [t'] rest) (h : ∀ rest, Lexes s ts rest) :
    Lexes (opening :: '\n' :: s ++ indent depth ++ [closing]) (t :: ts ++ [t']) rest := by
  have hend := (lexes_indent depth _).append (hclose rest)
  have hstart := (hopen _).append ((lexes_newline _).append (h (indent depth ++ [closing] ++ rest)))
  rw [List.append_assoc]
  exact hstart.append hend

theorem lexes_lineEnd (isLast : Bool) (rest : List Char) :
    Lexes (lineEnd isLast) (separator isLast) rest := by
  cases isLast with
  | true => exact lexes_newline rest
  | false =>
    have hcomma : Lexes [','] [.comma] ('\n' :: rest) := .token rfl rfl
    exact hcomma.append (lexes_newline rest)

/-! ### Numbers and strings as tokens -/

theorem token?_of_head {c : Char} (h : c = '-' ∨ c.isDigit = true) (s : List Char) :
    token? (c :: s) = (numeral? (c :: s)).map fun (n, rest) => (.scalar (.number n), rest) := by
  unfold token?
  split
  all_goals try
    rename_i heq
    cases heq
    exact absurd h (by decide)
  rfl

theorem exists_head_chars {n : Numeral} (hn : n.IsProper) :
    ∃ c s, n.chars = c :: s ∧ (c = '-' ∨ c.isDigit = true) := by
  unfold Numeral.chars
  dsimp only
  cases hnegative : n.negative with
  | true => exact ⟨'-', _, rfl, .inl rfl⟩
  | false =>
    cases hwhole : n.whole with
    | nil => exact absurd hwhole hn.whole_ne_nil
    | cons c s => exact ⟨c, _, rfl, .inr (hn.whole_digits c (hwhole ▸ List.mem_cons_self))⟩

theorem isSpace_of_head {c : Char} (h : c = '-' ∨ c.isDigit = true) : isSpace c = false := by
  refine Bool.eq_false_iff.mpr fun hspace => ?_
  simp only [isSpace, Bool.or_eq_true, decide_eq_true_eq] at hspace
  obtain ((rfl | rfl) | rfl) | rfl := hspace <;> exact absurd h (by decide)

theorem lexes_number {n : Numeral} (hn : n.IsProper) {rest : List Char} (h : EndsNumber rest) :
    Lexes n.chars [.scalar (number n)] rest := by
  obtain ⟨c, s, hchars, hc⟩ := exists_head_chars hn
  have hread := numeral?_chars hn h
  rw [hchars] at hread ⊢
  refine .token (isSpace_of_head hc) ?_
  rw [List.cons_append] at hread ⊢
  rw [token?_of_head hc, hread]
  rfl

theorem lexes_string (s : String) (rest : List Char) :
    Lexes (escape s.toList) [.string (some s)] rest :=
  .token (c := '"') rfl (token?_escape s rest)

theorem endsNumber_cons {c : Char} (h : c = '\n' ∨ c = ',') (s : List Char) :
    EndsNumber (c :: s) := by
  rintro c' hc
  rw [← Option.some.inj hc]
  obtain rfl | rfl := h <;> decide

theorem endsNumber_lineEnd (isLast : Bool) (s : List Char) : EndsNumber (lineEnd isLast ++ s) := by
  cases isLast with
  | true => exact endsNumber_cons (.inl rfl) s
  | false => exact endsNumber_cons (.inr rfl) _

/-! ### Values as tokens -/

theorem lexes_itemLines {depth : Nat} {vs : List Json}
    (h : ∀ v ∈ vs, ∀ rest, EndsNumber rest → Lexes (chars depth v) v.tokens rest)
    (rest : List Char) : Lexes (itemLines depth vs) (itemTokens vs) rest := by
  induction vs with
  | nil => exact .nil rest
  | cons v vs ih =>
    obtain ⟨hv, hvs⟩ := List.forall_mem_cons.mp h
    have hline := hv _ (endsNumber_lineEnd vs.isEmpty (itemLines depth vs ++ rest))
    exact (((lexes_indent depth _).append hline).append (lexes_lineEnd _ _)).append (ih hvs)

theorem lexes_memberLines {depth : Nat} {ms : List (Option String × Json)}
    (hkeys : ∀ m ∈ ms, m.1.isSome = true)
    (h : ∀ m ∈ ms, ∀ rest, EndsNumber rest → Lexes (chars depth m.2) m.2.tokens rest)
    (rest : List Char) : Lexes (memberLines depth ms) (memberTokens ms) rest := by
  induction ms with
  | nil => exact .nil rest
  | cons m ms ih =>
    obtain ⟨key?, v⟩ := m
    obtain ⟨hkey, hkeysRest⟩ := List.forall_mem_cons.mp hkeys
    obtain ⟨hv, hvs⟩ := List.forall_mem_cons.mp h
    obtain ⟨key, rfl⟩ := Option.isSome_iff_exists.mp hkey
    have hvalue := hv _ (endsNumber_lineEnd ms.isEmpty (memberLines depth ms ++ rest))
    have hcolon : ∀ rest, Lexes [':'] [.colon] rest := fun _ => .token rfl rfl
    have hblank : ∀ rest, Lexes [' '] [] rest :=
      .blanks fun _ hc => List.mem_singleton.mp hc ▸ rfl
    have hmember := ((lexes_indent depth _).append (lexes_string key _)).append
      ((hcolon _).append ((hblank _).append hvalue))
    exact (hmember.append (lexes_lineEnd _ _)).append (ih hkeysRest hvs)

/-- What is written for a value is cut into its tokens, however far in it
stands. -/
theorem lexes_chars {v : Json} (hv : Printable v) (depth : Nat) {rest : List Char}
    (hrest : EndsNumber rest) : Lexes (chars depth v) v.tokens rest := by
  -- The induction is on the value: its items are lexed before whatever follows them.
  induction hv generalizing depth rest with
  | null => exact .token (c := 'n') rfl rfl
  | bool b =>
    cases b with
    | true => exact .token (c := 't') rfl rfl
    | false => exact .token (c := 'f') rfl rfl
  | number hn => exact lexes_number hn hrest
  | string s => exact lexes_string s rest
  | @array vs _ ih =>
    cases vs with
    | nil => exact .append (s := ['[']) (.token rfl rfl) (.token rfl rfl)
    | cons v vs =>
      exact .bracketed (fun _ => .token rfl rfl) (fun _ => .token rfl rfl)
        (lexes_itemLines fun v hv _ => ih v hv _)
  | @object ms hkeys _ ih =>
    cases ms with
    | nil => exact .append (s := ['{']) (.token rfl rfl) (.token rfl rfl)
    | cons m ms =>
      exact .bracketed (fun _ => .token rfl rfl) (fun _ => .token rfl rfl)
        (lexes_memberLines hkeys fun m hm _ => ih m hm _)

/-! ### From tokens to values -/

/-- A value may come next, and nothing has to come before it. -/
def Expecting.IsValue (e : Expecting) : Prop := e = .value ∨ e = .firstItem

/-- From the tokens of the value the reader makes the value again, whatever is
open around it. -/
def ReadBack (v : Json) : Prop :=
  ∀ (e : Expecting), e.IsValue → ∀ frames rest,
    Reader.run ⟨frames, e, none⟩ (v.tokens ++ rest) = (Reader.add frames v).run rest

/-- The items that follow those read so far, which stand in reversed order,
complete the array. -/
theorem run_itemTokens {vs : List Json} (hne : vs ≠ []) (h : ∀ v ∈ vs, ReadBack v)
    {e : Expecting} (he : e.IsValue) (items : List Json) (frames : List Frame)
    (rest : List Token) :
    Reader.run ⟨.array items :: frames, e, none⟩ (itemTokens vs ++ .closeArray :: rest) =
      (Reader.add frames (.array (items.reverse ++ vs))).run rest := by
  induction vs generalizing e items with
  | nil => exact absurd rfl hne
  | cons v vs ih =>
    obtain ⟨hv, hvs⟩ := List.forall_mem_cons.mp h
    rw [itemTokens, List.append_assoc, List.append_assoc, hv e he,
      List.append_cons items.reverse, ← List.reverse_cons]
    cases vs with
    | nil =>
      rw [List.append_nil]
      rfl
    | cons w ws => exact ih (List.cons_ne_nil w ws) hvs (.inl rfl) (v :: items)

/-- The members that follow those read so far complete the object. -/
theorem run_memberTokens {ms : List (Option String × Json)} (hne : ms ≠ [])
    (h : ∀ m ∈ ms, ReadBack m.2) {e : Expecting} (he : e = .key ∨ e = .firstKey)
    (members : List (Option String × Json)) (frames : List Frame) (rest : List Token) :
    Reader.run ⟨.object members :: frames, e, none⟩ (memberTokens ms ++ .closeObject :: rest) =
      (Reader.add frames (.object (members.reverse ++ ms))).run rest := by
  induction ms generalizing e members with
  | nil => exact absurd rfl hne
  | cons m ms ih =>
    obtain ⟨key?, v⟩ := m
    obtain ⟨hv, hms⟩ := List.forall_mem_cons.mp h
    have hkey : ∀ ts,
        Reader.run ⟨.object members :: frames, e, none⟩ (.string key? :: .colon :: ts) =
          Reader.run ⟨.member key? members :: frames, .value, none⟩ ts := by
      intro ts
      obtain rfl | rfl := he <;> rfl
    rw [memberTokens, List.append_assoc, List.append_assoc, List.cons_append, List.cons_append,
      hkey, hv .value (.inl rfl), List.append_cons members.reverse, ← List.reverse_cons]
    cases ms with
    | nil =>
      rw [List.append_nil]
      rfl
    | cons m ms => exact ih (List.cons_ne_nil m ms) hms (.inl rfl) ((key?, v) :: members)

theorem run_openArray {e : Expecting} (he : e.IsValue) (frames : List Frame) (ts : List Token) :
    Reader.run ⟨frames, e, none⟩ (.openArray :: ts) =
      Reader.run ⟨.array [] :: frames, .firstItem, none⟩ ts := by
  obtain rfl | rfl := he <;> rfl

theorem run_openObject {e : Expecting} (he : e.IsValue) (frames : List Frame) (ts : List Token) :
    Reader.run ⟨frames, e, none⟩ (.openObject :: ts) =
      Reader.run ⟨.object [] :: frames, .firstKey, none⟩ ts := by
  obtain rfl | rfl := he <;> rfl

theorem run_tokens {v : Json} (hv : Printable v) : ReadBack v := by
  induction hv with
  | null | bool | number | string =>
    rintro e (rfl | rfl) frames rest <;> rfl
  | @array vs _ ih =>
    intro e he frames rest
    rw [tokens, List.cons_append, List.cons_append, run_openArray he, List.append_assoc]
    by_cases hne : vs = []
    · rw [hne]
      rfl
    · exact run_itemTokens hne ih (.inr rfl) [] frames rest
  | @object ms _ _ ih =>
    intro e he frames rest
    rw [tokens, List.cons_append, List.cons_append, run_openObject he, List.append_assoc]
    by_cases hne : ms = []
    · rw [hne]
      rfl
    · exact run_memberTokens hne ih (.inr rfl) [] frames rest

/-- A value that is written is read back. -/
theorem parse?_print {v : Json} (hv : Printable v) : parse? v.print = some v := by
  have hlex : tokens? (chars 0 v ++ []) = some (v.tokens ++ []) := by
    have h : Lexes (chars 0 v) v.tokens [] := lexes_chars hv 0 fun _ hc => nomatch hc
    unfold Lexes at h
    rw [h, tokens?_eq]
    rfl
  rw [List.append_nil] at hlex
  unfold parse? print
  rw [String.toList_ofList, hlex]
  exact congrArg (Option.bind · (·.value?)) (run_tokens hv .value (.inl rfl) [] [])

end Compositor.Json
