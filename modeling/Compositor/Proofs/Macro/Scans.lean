/-
# Scans for tokens

The scan for all tokens finds a token wherever one stands, unless it starts
inside a token before it. Each token found reads as itself. The name that a table
takes out of its key is the token's own name, so a table answers no reserved
token.

The scans for include directives and for the main text look for their own name
only. The directives they find are tokens, but the scan for all tokens need not
see them: in `%A%INCLUDE(x)%` it takes `%A%`, and with it the percent sign that
the directive starts with. So the scans agree on a text if and only if no
directive in it starts inside another token.

Key definitions: `Token.IsScannable`, `ScansTokens`, `IsDirective`,
`IsMainText`.
Key theorems: `token?_eq_some_iff`, `LookupTable.lookup?_key`, `macroPattern_scans`,
`narrows_includeRecogniser`, `narrows_mainText`, `directive_scans_agree_iff`.
-/
import Compositor.Macro.Handler
import Compositor.Proofs.Macro.Tokens
import Compositor.Proofs.Text.Scanning

namespace Compositor.Macro
open Text

/-! ### Tokens at the head of a text -/

/-- A well-formed token whose argument does not hold what would close it. -/
structure Token.IsScannable (t : Token) : Prop extends t.IsWellFormed where
  closes_once : ∀ argument ∈ t.argument, ¬ [')', '%'] <:+: argument.toList

theorem argument?_eq_some_iff {s argument rest : List Char} :
    argument? s = some (argument, rest) ↔
      s = argument ++ ')' :: '%' :: rest ∧ '\n' ∉ argument ∧ ¬ [')', '%'] <:+: argument := by
  constructor
  · intro h
    refine ⟨append_of_argument? h, not_mem_of_argument? h, ?_⟩
    fun_induction argument? s generalizing argument rest with
    | case1 => cases h
    | case2 => cases h; decide
    | case3 => cases h
    | case4 c s hend hc ih =>
      obtain ⟨⟨a, r⟩, ha, he⟩ := Option.map_eq_some_iff.mp h
      cases he
      rw [List.infix_cons_iff, not_or]
      refine ⟨?_, ih ha⟩
      rintro ⟨w, hw⟩
      obtain ⟨rfl, rfl⟩ := List.cons.inj hw
      exact hend _ rfl (append_of_argument? ha)
  · rintro ⟨rfl, hline, hclose⟩
    induction argument with
    | nil => rfl
    | cons c a ih =>
      rw [List.infix_cons_iff, not_or] at hclose
      rw [List.mem_cons, not_or] at hline
      have hend : ∀ w, c = ')' → a ++ ')' :: '%' :: rest = '%' :: w → False := by
        rintro w rfl hw
        cases a with
        | nil => cases hw
        | cons b a =>
          obtain ⟨rfl, -⟩ := List.cons.inj hw
          exact hclose.1 ⟨a, rfl⟩
      rw [List.cons_append, argument?, if_neg (Ne.symm hline.1), ih hline.2 hclose.2]
      · rfl
      · exact hend

/-- A name between percent signs. -/
theorem token?_name {name : List Char} (hne : name ≠ []) (hname : ∀ c ∈ name, isNameChar c = true)
    (rest : List Char) :
    token? ('%' :: (name ++ '%' :: rest)) = some (⟨String.ofList name, none⟩, rest) := by
  rw [token?, splitName_append_cons hname (by decide)]
  simp only [List.isEmpty_iff, hne, if_false]

/-- A name with an opening bracket behind it. -/
theorem token?_bracket {name : List Char} (hne : name ≠ [])
    (hname : ∀ c ∈ name, isNameChar c = true) (s : List Char) :
    token? ('%' :: (name ++ '(' :: s)) =
      (argument? s).map fun p => (⟨String.ofList name, some (String.ofList p.1)⟩, p.2) := by
  rw [token?, splitName_append_cons hname (by decide)]
  simp only [List.isEmpty_iff, hne, if_false]

theorem Token.chars_name (name : String) : chars ⟨name, none⟩ = '%' :: (name.toList ++ ['%']) := rfl

theorem Token.chars_call (name argument : String) :
    chars ⟨name, some argument⟩ =
      '%' :: (name.toList ++ '(' :: (argument.toList ++ [')', '%'])) := by
  simp [chars, keyChars]

/-- **Which token stands at the head of a text.** -/
theorem token?_eq_some_iff {s rest : List Char} {t : Token} :
    token? s = some (t, rest) ↔ t.IsScannable ∧ s = t.chars ++ rest := by
  constructor
  · intro h
    have hwell := isWellFormed_of_token? h
    refine ⟨⟨hwell, fun argument hargument => ?_⟩, (append_of_token? h).symm⟩
    obtain ⟨name, argument?⟩ := t
    obtain rfl : argument? = some argument := hargument
    rw [← append_of_token? h, Token.chars_call] at h
    simp only [List.cons_append, List.append_assoc, List.nil_append] at h
    rw [token?_bracket hwell.name_ne hwell.name_chars] at h
    obtain ⟨⟨a, r⟩, ha, he⟩ := Option.map_eq_some_iff.mp h
    obtain ⟨ht, rfl⟩ := Prod.mk.inj he
    have hargument : String.ofList a = argument := Option.some.inj (Token.mk.inj ht).2
    rw [← hargument, String.toList_ofList]
    exact (argument?_eq_some_iff.mp ha).2.2
  · rintro ⟨hscan, rfl⟩
    obtain ⟨name, argument?⟩ := t
    cases argument? with
    | none =>
      rw [Token.chars_name, List.cons_append, List.append_assoc, List.singleton_append,
        token?_name hscan.name_ne hscan.name_chars, String.ofList_toList]
    | some argument =>
      have hargument : Macro.argument? (argument.toList ++ ')' :: '%' :: rest) =
          some (argument.toList, rest) :=
        argument?_eq_some_iff.mpr
          ⟨rfl, hscan.argument_line argument rfl, hscan.closes_once argument rfl⟩
      rw [Token.chars_call]
      simp only [List.cons_append, List.append_assoc, List.nil_append]
      rw [token?_bracket hscan.name_ne hscan.name_chars, hargument, Option.map_some,
        String.ofList_toList, String.ofList_toList]

theorem find_token_eq_some_iff {s found rest : List Char} :
    tokenRecogniser.find s = some (found, rest) ↔
      ∃ t : Token, t.IsScannable ∧ found = t.chars ∧ s = found ++ rest := by
  show (token? s).map (fun p => (p.1.chars, p.2)) = some (found, rest) ↔ _
  rw [Option.map_eq_some_iff]
  constructor
  · rintro ⟨⟨t, r⟩, ht, he⟩
    obtain ⟨rfl, rfl⟩ := Prod.mk.inj he
    obtain ⟨hscan, rfl⟩ := token?_eq_some_iff.mp ht
    exact ⟨t, hscan, rfl, rfl⟩
  · rintro ⟨t, hscan, rfl, rfl⟩
    exact ⟨(t, rest), token?_eq_some_iff.mpr ⟨hscan, rfl⟩, rfl⟩

/-! ### Names and keys -/

/-- The name that a table takes out of a token's key is the token's name. -/
theorem Token.IsWellFormed.keyName_key {t : Token} (h : t.IsWellFormed) :
    keyName t.key = t.name := by
  have hname : ∀ c ∈ t.name.toList, decide (c ≠ '(') = true := by
    intro c hc
    rw [decide_eq_true_eq]
    rintro rfl
    exact absurd (h.name_chars _ hc) (by decide)
  obtain ⟨name, argument?⟩ := t
  rw [keyName, Token.key, String.toList_ofList]
  cases argument? with
  | none =>
    have htake : (name.toList ++ []).takeWhile (· ≠ '(') = name.toList ++ [] :=
      List.takeWhile_append_of_pos hname
    rw [List.append_nil] at htake
    show String.ofList (name.toList.takeWhile (· ≠ '(')) = name
    rw [htake, String.ofList_toList]
  | some argument =>
    show String.ofList ((name.toList ++ '(' :: argument.toList ++ [')']).takeWhile (· ≠ '(')) = name
    rw [List.append_assoc, List.cons_append, List.takeWhile_append_of_pos hname,
      List.takeWhile_cons_of_neg (by decide), List.append_nil, String.ofList_toList]

namespace LookupTable

variable {key : String}

theorem ne_of_reserved {k : String} (h : isReserved (keyName key) = true)
    (hk : isReserved (keyName k) = false) : key ≠ k := by
  rintro rfl
  rw [hk] at h
  cases h

/-- The clock answers no reserved name. -/
theorem clockValue?_of_reserved (h : isReserved (keyName key) = true) (t : LookupTable) :
    t.clockValue? key = none := by
  have hpattern : patternArgument? key = none := by
    have hafter : after? "DATETIME(".toList key.toList = none := by
      refine Option.eq_none_iff_forall_ne_some.mpr fun rest hrest => ?_
      have hname : keyName key = "DATETIME" := by
        rw [keyName, after?_eq_some_iff.mp hrest]
        rfl
      rw [hname] at h
      exact absurd h (by decide)
    rw [patternArgument?, hafter]
  rw [clockValue?, if_neg (ne_of_reserved h (by decide)), datePattern?,
    if_neg (ne_of_reserved h (by decide)), if_neg (ne_of_reserved h (by decide)),
    if_neg (ne_of_reserved h (by decide)), hpattern, Option.bind_none]

/-- The counters answer no reserved name. -/
theorem counterValue?_of_reserved (h : isReserved (keyName key) = true) (t : LookupTable) :
    t.counterValue? key = none := by
  rw [counterValue?, Option.bind_eq_none_iff]
  intro counts _
  rw [if_neg (ne_of_reserved h (by decide)), if_neg (ne_of_reserved h (by decide)),
    if_neg (ne_of_reserved h (by decide)), if_neg (ne_of_reserved h (by decide))]

/-- A table has no answer for a token with a reserved name, and asks all its
layers for any other. -/
theorem lookup?_key {t : Token} (h : t.IsWellFormed) (table : LookupTable) :
    table.lookup? t.key = if t.isReserved = true then none
      else ((table.clockValue? t.key).or (table.counterValue? t.key)).or
        (table.statics.lookup t.key) := by
  have hname : isReserved (keyName t.key) = t.isReserved := by rw [h.keyName_key, Token.isReserved]
  rw [lookup?, staticValue?]
  split
  · rename_i hreserved
    rw [clockValue?_of_reserved hreserved, counterValue?_of_reserved hreserved,
      if_pos (hname.symm.trans hreserved)]
    rfl
  · rename_i hreserved
    rw [if_neg (hname ▸ hreserved)]

end LookupTable

theorem Token.raw_eq (t : Token) : String.ofList t.chars = "%" ++ t.key ++ "%" := by
  rw [← String.toList_inj]
  simp [Token.key, Token.chars]

/-! ### The scan for all tokens -/

/-- The scan for tokens takes them in order, each from one boundary to another
one; each occurrence reads as one token, whose key is withheld from the user's
values if and only if the token is reserved; and every token in the text is
taken, or it starts inside a token taken before it. -/
structure ScansTokens (s : List Char) : Prop where
  in_order : (macroPattern.spans s).Pairwise fun a b => a.2 ≤ b.1
  reads : ∀ span ∈ macroPattern.spans s, span.1 < span.2 ∧ ∃ found t,
    slice? s span.1 span.2 = some found ∧ Token.parse? (String.ofList found) = some t ∧
      t.IsScannable ∧ String.ofList found = "%" ++ t.key ++ "%" ∧ keyName t.key = t.name ∧
      ∀ table : LookupTable, table.lookup? t.key = if t.isReserved = true then none
        else ((table.clockValue? t.key).or (table.counterValue? t.key)).or
          (table.statics.lookup t.key)
  takes : ∀ (u : List Char) (t : Token) (v : List Char), t.IsScannable → s = u ++ t.chars ++ v →
    (size u, size (u ++ t.chars)) ∈ macroPattern.spans s ∨
      ∃ wider ∈ macroPattern.spans s, StartsInside (size u) wider

/-- **Every token is taken, or starts inside one that is.** The scan for tokens
takes nothing else, and what it takes reads as the token that it is. -/
theorem macroPattern_scans (s : List Char) : ScansTokens s := by
  refine ⟨pairwise_spans macroPattern s, fun span hspan => ?_, fun u t v ht hs => ?_⟩
  · obtain ⟨found, hin⟩ := mem_spans_iff.mp hspan
    have hslice := slice?_of_mem_placed hin
    obtain ⟨u, rest, -, -, hfind⟩ := Recogniser.exists_of_mem_placed hin
    obtain ⟨t, ht, rfl, -⟩ := find_token_eq_some_iff.mp hfind
    exact ⟨lt_of_slice? hslice (List.cons_ne_nil _ _), t.chars, t, hslice,
      Token.parse?_raw ht.toIsWellFormed, ht, t.raw_eq, ht.keyName_key,
      LookupTable.lookup?_key ht.toIsWellFormed⟩
  · have hfind : tokenRecogniser.find (t.chars ++ v) = some (t.chars, v) :=
      find_token_eq_some_iff.mpr ⟨t, ht, rfl, rfl⟩
    rw [hs, List.append_assoc, size_append]
    exact (Recogniser.mem_placed_or_startsInside hfind u).imp_left mem_spans_of_mem_placed

/-- A token that starts with the percent sign that ends the one before it is
passed over, and a token in its argument is taken in its place. -/
theorem scans_sharedPercent :
    let s := "é%A%B(%C%)%".toList
    let t : Token := ⟨"B", some "%C%"⟩
    t.IsScannable ∧ s = "é%A".toList ++ t.chars ++ [] ∧
      macroPattern.placed s = [((2, 5), "%A%".toList), ((7, 10), "%C%".toList)] ∧
      ((4, 12) ∈ macroPattern.spans s ∨ ∃ wider ∈ macroPattern.spans s, StartsInside 4 wider) := by
  intro s t
  have hargument : ∀ argument ∈ t.argument, argument = "%C%" :=
    fun argument h => (Option.some.inj h).symm
  have hname : "B".toList.all isNameChar = true := by decide
  have ht : t.IsScannable := by
    refine ⟨⟨by decide, fun c hc => List.all_eq_true.mp hname c hc, ?_⟩, ?_⟩
    · intro argument h
      rw [hargument argument h]
      decide
    · intro argument h
      rw [hargument argument h]
      decide
  have hs : s = "é%A".toList ++ t.chars ++ [] := by decide
  have htakes := (macroPattern_scans s).takes _ t _ ht hs
  have hstart : size "é%A".toList = 4 := by decide
  have hstop : size ("é%A".toList ++ t.chars) = 12 := by decide
  rw [hstart, hstop] at htakes
  exact ⟨ht, hs, by decide +kernel, htakes⟩

/-! ### Scans for one name -/

/-- Does the text read as a directive to include a file? -/
def IsDirective (found : List Char) : Prop :=
  ∃ t, Token.parse? (String.ofList found) = some t ∧ t.name = includeName ∧
    t.argument.isSome = true

/-- Does the text read as the token for the main text? -/
def IsMainText (found : List Char) : Prop :=
  ∃ t, Token.parse? (String.ofList found) = some t ∧ t.isJust mainTextName = true

theorem isDirective_chars_iff {t : Token} (h : t.IsWellFormed) :
    IsDirective t.chars ↔ ∃ argument, t = ⟨includeName, some argument⟩ := by
  have hparse : Token.parse? (String.ofList t.chars) = some t := Token.parse?_raw h
  obtain ⟨name, argument?⟩ := t
  constructor
  · rintro ⟨t', ht', hname, hargument⟩
    obtain rfl := Option.some.inj (hparse.symm.trans ht')
    obtain ⟨argument, rfl⟩ := Option.isSome_iff_exists.mp hargument
    obtain rfl : name = includeName := hname
    exact ⟨argument, rfl⟩
  · rintro ⟨argument, ht⟩
    obtain ⟨rfl, rfl⟩ := Token.mk.inj ht
    exact ⟨_, hparse, rfl, rfl⟩

theorem isMainText_chars_iff {t : Token} (h : t.IsWellFormed) :
    IsMainText t.chars ↔ t = ⟨mainTextName, none⟩ := by
  have hparse : Token.parse? (String.ofList t.chars) = some t := Token.parse?_raw h
  constructor
  · rintro ⟨t', ht', hjust⟩
    obtain rfl := Option.some.inj (hparse.symm.trans ht')
    obtain ⟨name, argument?⟩ := t
    rw [Token.isJust, Bool.and_eq_true, decide_eq_true_eq, Option.isNone_iff_eq_none] at hjust
    obtain ⟨rfl, rfl⟩ : name = mainTextName ∧ argument? = none := hjust
    rfl
  · rintro rfl
    exact ⟨_, hparse, by decide⟩

theorem includeStart_append (s : List Char) :
    includeStart ++ s = '%' :: (includeName.toList ++ '(' :: s) := by
  have hstart : includeStart = '%' :: (includeName.toList ++ ['(']) := by decide
  rw [hstart, List.cons_append, List.append_assoc, List.singleton_append]

/-- The scan for directives finds the tokens that are directives. -/
theorem narrows_includeRecogniser : includeRecogniser.Narrows tokenRecogniser IsDirective := by
  intro s found rest
  rw [find_token_eq_some_iff]
  simp only [includeRecogniser]
  rw [Option.map_eq_some_iff]
  constructor
  · rintro ⟨⟨a, r⟩, ha, he⟩
    obtain ⟨v, hv, ha⟩ := Option.bind_eq_some_iff.mp ha
    obtain ⟨rfl, rfl⟩ := Prod.mk.inj he
    obtain ⟨rfl, hline, hclose⟩ := argument?_eq_some_iff.mp ha
    have hscan : (includeToken a).IsScannable := by
      refine ⟨isWellFormed_includeToken hline, fun argument hargument => ?_⟩
      obtain rfl := Option.some.inj hargument
      rwa [String.toList_ofList]
    have hchars : includeStart ++ a ++ [')', '%'] = (includeToken a).chars := by
      rw [List.append_assoc, includeStart_append, includeToken, Token.chars_call,
        String.toList_ofList]
    refine ⟨⟨includeToken a, hscan, hchars, ?_⟩, ?_⟩
    · rw [after?_eq_some_iff.mp hv]
      simp only [List.append_assoc, List.cons_append, List.nil_append]
    · rw [hchars]
      exact (isDirective_chars_iff hscan.toIsWellFormed).mpr ⟨_, rfl⟩
  · rintro ⟨⟨t, hscan, rfl, rfl⟩, hkind⟩
    obtain ⟨argument, rfl⟩ := (isDirective_chars_iff hscan.toIsWellFormed).mp hkind
    have hargument : argument? (argument.toList ++ ')' :: '%' :: rest) =
        some (argument.toList, rest) :=
      argument?_eq_some_iff.mpr
        ⟨rfl, hscan.argument_line argument rfl, hscan.closes_once argument rfl⟩
    have hchars : Token.chars ⟨includeName, some argument⟩ =
        includeStart ++ (argument.toList ++ [')', '%']) := by
      rw [Token.chars_call, includeStart_append]
    refine ⟨(argument.toList, rest), ?_, ?_⟩
    · have hafter : after? includeStart (Token.chars ⟨includeName, some argument⟩ ++ rest) =
          some (argument.toList ++ ')' :: '%' :: rest) := by
        rw [after?_eq_some_iff, hchars]
        simp only [List.append_assoc, List.cons_append, List.nil_append]
      rw [hafter, Option.bind_some, hargument]
    · rw [hchars, List.append_assoc]

/-- The scan for the main text finds the tokens for it. -/
theorem narrows_mainText :
    (wordRecogniser (Token.chars ⟨mainTextName, none⟩)).Narrows tokenRecogniser IsMainText := by
  have hwell : (⟨mainTextName, none⟩ : Token).IsScannable := by
    refine ⟨⟨by decide, ?_, nofun⟩, nofun⟩
    have hall : "MAIN_TEXT".toList.all isNameChar = true := by decide
    exact fun c hc => List.all_eq_true.mp hall c hc
  have hword : ∀ {s found rest},
      (wordRecogniser (Token.chars ⟨mainTextName, none⟩)).find s = some (found, rest) ↔
        found = Token.chars ⟨mainTextName, none⟩ ∧ s = found ++ rest := by
    intro s found rest
    show (after? _ s).map _ = _ ↔ _
    rw [Option.map_eq_some_iff]
    constructor
    · rintro ⟨r, hr, he⟩
      obtain ⟨rfl, rfl⟩ := Prod.mk.inj he
      exact ⟨rfl, after?_eq_some_iff.mp hr⟩
    · rintro ⟨rfl, rfl⟩
      exact ⟨rest, after?_eq_some_iff.mpr rfl, rfl⟩
  intro s found rest
  rw [hword, find_token_eq_some_iff]
  constructor
  · rintro ⟨rfl, rfl⟩
    exact ⟨⟨_, hwell, rfl, rfl⟩, (isMainText_chars_iff hwell.toIsWellFormed).mpr rfl⟩
  · rintro ⟨⟨t, hscan, rfl, rfl⟩, hkind⟩
    rw [(isMainText_chars_iff hscan.toIsWellFormed).mp hkind]
    exact ⟨rfl, rfl⟩

/-- **When the scans for one name agree with the scan for all tokens.** The scan
for directives picks the directives from that scan if and only if no directive
starts inside another token, and a single directive is seen there if and only if
it does not. The same holds of the scan for the main text. -/
theorem directive_scans_agree_iff (s : List Char) :
    (includePattern.PicksFrom macroPattern IsDirective s ↔
        includePattern.NeverInside macroPattern s) ∧
      (mainTextPattern.PicksFrom macroPattern IsMainText s ↔
        mainTextPattern.NeverInside macroPattern s) ∧
      (∀ o ∈ includePattern.placed s, IsDirective o.2 ∧ (o ∈ macroPattern.placed s ↔
        ∀ wider ∈ macroPattern.spans s, ¬ StartsInside o.1.1 wider)) ∧
      ∀ o ∈ mainTextPattern.placed s, IsMainText o.2 ∧ (o ∈ macroPattern.placed s ↔
        ∀ wider ∈ macroPattern.spans s, ¬ StartsInside o.1.1 wider) := by
  have hmain : mainTextPattern = (wordRecogniser (Token.chars ⟨mainTextName, none⟩)).pattern := rfl
  rw [hmain]
  exact ⟨narrows_includeRecogniser.picksFrom_iff s, narrows_mainText.picksFrom_iff s,
    fun _ ho => narrows_includeRecogniser.mem_wider_iff ho,
    fun _ ho => narrows_mainText.mem_wider_iff ho⟩

/-- The scan for all tokens takes the first directive and not the second one. -/
theorem agree_one_of_two_directives :
    let s := "%INCLUDE(a)% %A%INCLUDE(b)%".toList
    includePattern.placed s =
        [((0, 12), "%INCLUDE(a)%".toList), ((15, 27), "%INCLUDE(b)%".toList)] ∧
      ((0, 12), "%INCLUDE(a)%".toList) ∈ macroPattern.placed s ∧
      ((15, 27), "%INCLUDE(b)%".toList) ∉ macroPattern.placed s := by
  intro s
  have hincludes : includePattern.placed s =
      [((0, 12), "%INCLUDE(a)%".toList), ((15, 27), "%INCLUDE(b)%".toList)] := by decide +kernel
  have hspans : macroPattern.spans s = [(0, 12), (13, 16)] := by decide +kernel
  obtain ⟨-, -, hseen, -⟩ := directive_scans_agree_iff s
  rw [hincludes, hspans] at hseen
  refine ⟨hincludes, (hseen _ (by decide)).2.mpr ?_, fun h => ?_⟩
  · rintro wider - ⟨hstart, -⟩
    exact absurd hstart (Nat.not_lt_zero _)
  · exact (hseen _ (by decide)).2.mp h (13, 16) (by decide) ⟨by decide, by decide⟩

/-- A directive that starts with the last percent sign of another token is found
by the scan for directives only, and so is the token for the main text. The other
way round, a directive that the scan for all tokens takes can be the end of a
longer one that starts before it. -/
theorem not_picksFrom_sharedPercent :
    (includePattern.placed "%A%INCLUDE(x)%".toList = [((2, 14), "%INCLUDE(x)%".toList)] ∧
      macroPattern.placed "%A%INCLUDE(x)%".toList = [((0, 3), "%A%".toList)] ∧
      ¬ includePattern.PicksFrom macroPattern IsDirective "%A%INCLUDE(x)%".toList) ∧
    (mainTextPattern.placed "%A%MAIN_TEXT%".toList = [((2, 13), "%MAIN_TEXT%".toList)] ∧
      macroPattern.placed "%A%MAIN_TEXT%".toList = [((0, 3), "%A%".toList)] ∧
      ¬ mainTextPattern.PicksFrom macroPattern IsMainText "%A%MAIN_TEXT%".toList) ∧
    includePattern.spans "%A%INCLUDE(b%INCLUDE(c)%".toList = [(2, 24)] ∧
      macroPattern.spans "%A%INCLUDE(b%INCLUDE(c)%".toList = [(0, 3), (12, 24)] := by
  have hinclude : includePattern.placed "%A%INCLUDE(x)%".toList =
      [((2, 14), "%INCLUDE(x)%".toList)] := by decide +kernel
  have hmain : mainTextPattern.placed "%A%MAIN_TEXT%".toList =
      [((2, 13), "%MAIN_TEXT%".toList)] := by decide +kernel
  have hall : macroPattern.placed "%A%INCLUDE(x)%".toList = [((0, 3), "%A%".toList)] := by
    decide +kernel
  have hall' : macroPattern.placed "%A%MAIN_TEXT%".toList = [((0, 3), "%A%".toList)] := by
    decide +kernel
  refine ⟨⟨hinclude, hall, fun h => ?_⟩, ⟨hmain, hall', fun h => ?_⟩, by decide +kernel,
    by decide +kernel⟩
  · have hspan : (2, 14) ∈ includePattern.spans "%A%INCLUDE(x)%".toList := by decide +kernel
    obtain ⟨found, hin, -⟩ := (h _).mp hspan
    rw [hall] at hin
    simp at hin
  · have hspan : (2, 13) ∈ mainTextPattern.spans "%A%MAIN_TEXT%".toList := by decide +kernel
    obtain ⟨found, hin, -⟩ := (h _).mp hspan
    rw [hall'] at hin
    simp at hin

end Compositor.Macro
