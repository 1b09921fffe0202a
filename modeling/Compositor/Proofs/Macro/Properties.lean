/-
# Properties written and read

A key and its value are written character by character: with a backslash before
a character that separates, starts a comment or is blank, and with a letter for
a line feed, a carriage return, a tab or a form feed. Any texts can be keys and
values, and a file of such lines is read as the pairs that were written,
whatever blank lines and comments stand between them and wherever a line is
wrapped. A table then holds the last value given for each key.

Key definitions: `escape`, `keyed`, `propertyPieces`, `PropertyText`.
Key theorems: `unescape_escape`, `splitProperty_escape`, `map_property_keyed`,
`parseProperties_written`.
-/
import Mathlib.Data.Bool.AllAny
import Compositor.Composer
import Compositor.Proofs.Macro.PropertyLines

namespace Compositor.Macro
open Text

/-! ### Escapes -/

/-- The characters that are no blanks but have a meaning in a property. -/
def markers : List Char := ['\\', '=', ':', '#', '!']

theorem not_mem_markers_iff {c : Char} :
    c ∉ markers ↔ c ≠ '\\' ∧ c ≠ '=' ∧ c ≠ ':' ∧ c ≠ '#' ∧ c ≠ '!' := by
  simp only [markers, List.mem_cons, List.not_mem_nil, or_false, not_or, ne_eq]

/-- What is written for a character of a key or a value. -/
def escape (c : Char) : List Char :=
  if c = '\n' then ['\\', 'n']
  else if c = '\r' then ['\\', 'r']
  else if c = '\t' then ['\\', 't']
  else if c = '\x0c' then ['\\', 'f']
  else if c ∈ markers ∨ isBlank c = true then ['\\', c]
  else [c]

theorem unescape_cons {c : Char} (hc : c ≠ '\\') (s : List Char) :
    unescape (c :: s) = c :: unescape s := by
  rw [unescape.eq_def]
  split <;> simp_all

/-- A backslash before a character that is no letter of an escape. -/
theorem unescape_backslash {c : Char} (hc : c ∉ ['t', 'n', 'r', 'f', 'u']) (s : List Char) :
    unescape ('\\' :: c :: s) = c :: unescape s := by
  rw [unescape]
  all_goals
    rintro rfl
    exact hc (by decide)

/-- A character is written as itself if it has no meaning, and else as an escape
of two characters. -/
theorem escape_cases (c : Char) :
    (escape c = [c] ∧ c ∉ markers ∧ isBlank c = false) ∨
      ∃ d, escape c = ['\\', d] ∧ d ≠ '\n' ∧ d ≠ '\r' ∧
        ∀ s, unescape ('\\' :: d :: s) = c :: unescape s := by
  unfold escape
  split
  · rename_i hc
    subst hc
    exact .inr ⟨'n', rfl, by decide, by decide, fun s => by rw [unescape]⟩
  split
  · rename_i hc
    subst hc
    exact .inr ⟨'r', rfl, by decide, by decide, fun s => by rw [unescape]⟩
  split
  · rename_i hc
    subst hc
    exact .inr ⟨'t', rfl, by decide, by decide, fun s => by rw [unescape]⟩
  split
  · rename_i hc
    subst hc
    exact .inr ⟨'f', rfl, by decide, by decide, fun s => by rw [unescape]⟩
  rename_i hfeed hreturn _ _
  split
  · rename_i hc
    refine .inr ⟨c, rfl, hfeed, hreturn, unescape_backslash fun hletter => ?_⟩
    have hnone : ∀ d ∈ ['t', 'n', 'r', 'f', 'u'], d ∉ markers ∧ isBlank d = false :=
      List.all_iff_forall_prop.mp (by decide)
    obtain ⟨hmarker, hblank⟩ := hnone c hletter
    rw [hblank] at hc
    exact hc.elim hmarker Bool.false_ne_true
  · rename_i hc
    rw [not_or, Bool.not_eq_true] at hc
    exact .inl ⟨rfl, hc⟩

theorem unescape_escape (c : Char) (s : List Char) :
    unescape (escape c ++ s) = c :: unescape s := by
  rcases escape_cases c with ⟨hescape, hmarker, -⟩ | ⟨d, hescape, -, -, hd⟩
  · rw [hescape, List.singleton_append]
    exact unescape_cons (not_mem_markers_iff.mp hmarker).1 s
  · rw [hescape]
    exact hd s

theorem splitProperty_escape (c : Char) (s : List Char) :
    splitProperty (escape c ++ s) = (escape c ++ (splitProperty s).1, (splitProperty s).2) := by
  rcases escape_cases c with ⟨hescape, hmarker, hblank⟩ | ⟨d, hescape, -⟩
  · rw [hescape, List.singleton_append]
    obtain ⟨hslash, hequals, hcolon, -⟩ := not_mem_markers_iff.mp hmarker
    rw [splitProperty.eq_def]
    split <;> simp_all
  · rw [hescape]
    rfl

theorem piece_escape (c : Char) : Piece (escape c) := by
  rcases escape_cases c with ⟨hescape, hmarker, hblank⟩ | ⟨d, hescape, hfeed, hreturn, -⟩
  · obtain ⟨hslash, -, -, hnumber, hmark⟩ := not_mem_markers_iff.mp hmarker
    have hne : ∀ e, isBlank e = true → c ≠ e := by
      rintro e he rfl
      rw [hblank] at he
      cases he
    rw [hescape]
    refine ⟨⟨c, [], rfl, hblank, hnumber, hmark⟩, ?_, ?_, ?_⟩
    · rw [List.mem_singleton]
      exact (hne '\n' (by decide)).symm
    · rw [List.getLast?_singleton]
      exact fun h => hne '\r' (by decide) (Option.some.inj h)
    · exact fun s _ => continues_append_of_ne hslash s
  · rw [hescape]
    refine ⟨⟨'\\', [d], rfl, by decide⟩, ?_, ?_, fun s hs => ?_⟩
    · rw [List.mem_cons, List.mem_singleton, not_or]
      exact ⟨by decide, hfeed.symm⟩
    · exact fun h => hreturn (Option.some.inj h)
    · have happend : s ++ ['\\', d] = (s ++ ['\\']) ++ [d] := by simp
      rw [happend]
      by_cases hd : d = '\\'
      · rw [hd, continues_append_backslash, continues_append_backslash, hs]
        rfl
      · exact continues_append_of_ne hd _

/-! ### A property -/

/-- The pieces of a key and its separator, and those that its value is written
as. -/
def keyed (key : List Char) (value : List (List Char)) : List (List Char) :=
  key.map escape ++ ['='] :: value

/-- The pieces that a key and its value are written as. -/
def propertyPieces (key value : String) : List (List Char) :=
  keyed key.toList (value.toList.map escape)

theorem unescape_flatMap (s : List Char) : unescape (s.flatMap escape) = s := by
  induction s with
  | nil => rw [List.flatMap_nil, unescape]
  | cons c s ih => rw [List.flatMap_cons, unescape_escape, ih]

theorem skipBlanks_flatMap (s : List Char) :
    skipBlanks (s.flatMap escape) = s.flatMap escape := by
  cases s with
  | nil => rfl
  | cons c s =>
    obtain ⟨d, t, hd, hblank, -⟩ := (piece_escape c).head
    rw [List.flatMap_cons, hd]
    exact skipBlanks_eq_self fun e he => Option.some.inj he ▸ hblank

theorem splitProperty_flatMap (key s : List Char) :
    splitProperty (key.flatMap escape ++ '=' :: s) = (key.flatMap escape, skipBlanks s) := by
  induction key with
  | nil =>
    rw [List.flatMap_nil, List.nil_append, splitProperty, if_pos (.inl rfl)]
    exact fun _ _ h => absurd h (by decide)
  | cons c key ih => rw [List.flatMap_cons, List.append_assoc, splitProperty_escape, ih]

theorem flatten_keyed (key : List Char) (value : List (List Char)) :
    (keyed key value).flatten = key.flatMap escape ++ '=' :: value.flatten := by
  rw [keyed, List.flatten_append, List.flatten_cons, List.flatMap_def, List.singleton_append]

/-- A key is read as it was meant, whatever its value is written as. -/
theorem property_keyed (key : List Char) (value : List (List Char)) :
    property (keyed key value).flatten =
      (String.ofList key, String.ofList (unescape (skipBlanks value.flatten))) := by
  rw [property, flatten_keyed, splitProperty_flatMap]
  dsimp only
  rw [unescape_flatMap]

theorem piece_of_mem_map_escape {s : List Char} : ∀ p ∈ s.map escape, Piece p := by
  intro p hp
  obtain ⟨c, -, rfl⟩ := List.mem_map.mp hp
  exact piece_escape c

theorem piece_of_mem_keyed {key : List Char} {value : List (List Char)}
    (hvalue : ∀ p ∈ value, Piece p) : ∀ p ∈ keyed key value, Piece p := by
  have hequals : Piece ['='] :=
    ⟨⟨'=', [], rfl, by decide⟩, by decide, by decide,
      fun s _ => continues_append_of_ne (by decide) s⟩
  exact List.forall_mem_append.mpr
    ⟨piece_of_mem_map_escape, List.forall_mem_cons.mpr ⟨hequals, hvalue⟩⟩

/-- The line of a key and a value in pieces is one property. -/
theorem map_property_keyed {key line after : List Char} {value rest : List (List Char)}
    (hvalue : ∀ p ∈ value, Piece p) (h : Wrapped (keyed key value) line)
    (hend : LineEnd after rest) :
    (logicalLines (lines (line ++ after))).map property =
      (String.ofList key, String.ofList (unescape (skipBlanks value.flatten))) ::
        (logicalLines rest).map property := by
  have hne : keyed key value ≠ [] := List.append_ne_nil_of_right_ne_nil _ (List.cons_ne_nil _ _)
  rw [logicalLines_wrapped h hne (piece_of_mem_keyed hvalue) hend, List.map_cons, property_keyed]

/-- The line of a property is read as the property. -/
theorem map_property_wrapped {key value : String} {line after : List Char}
    {rest : List (List Char)} (h : Wrapped (propertyPieces key value) line)
    (hend : LineEnd after rest) :
    (logicalLines (lines (line ++ after))).map property =
      (key, value) :: (logicalLines rest).map property := by
  rw [map_property_keyed piece_of_mem_map_escape h hend, ← List.flatMap_def, skipBlanks_flatMap,
    unescape_flatMap, String.ofList_toList, String.ofList_toList]

/-! ### A file of properties -/

/-- The text holds the properties in this order, each on a line of its own that
may be wrapped, among blank lines and comments. The last line may go without a
line feed. -/
inductive PropertyText : List (String × String) → List Char → Prop
  | lastRemark {line : List Char} : IsRemarkLine line → PropertyText [] line
  | lastProperty {key value : String} {line : List Char} :
      Wrapped (propertyPieces key value) line → PropertyText [(key, value)] line
  | remark {line s : List Char} {pairs : List (String × String)} :
      IsRemarkLine line → PropertyText pairs s → PropertyText pairs (line ++ '\n' :: s)
  | property {key value : String} {line s : List Char} {pairs : List (String × String)} :
      Wrapped (propertyPieces key value) line → PropertyText pairs s →
      PropertyText ((key, value) :: pairs) (line ++ '\n' :: s)

theorem parseProperties_eq {pairs : List (String × String)} {s : List Char}
    (h : PropertyText pairs s) : parseProperties (String.ofList s) = pairs := by
  rw [parseProperties, String.toList_ofList]
  induction h with
  | lastRemark h =>
    have hlines := logicalLines_remark h .last
    rw [List.append_nil] at hlines
    rw [hlines, logicalLines_nil, List.map_nil]
  | lastProperty h =>
    have hlines := map_property_wrapped h .last
    rw [List.append_nil] at hlines
    rw [hlines, logicalLines_nil, List.map_nil]
  | remark h hs ih => rw [logicalLines_remark h (.feed _), ih]
  | property h hs ih => rw [map_property_wrapped h (.feed _), ih]

/-! ### Values of a table -/

theorem statics_insertAll (t : LookupTable) (pairs : List (String × String)) :
    (t.insertAll pairs).statics = pairs.reverse ++ t.statics := by
  induction pairs generalizing t with
  | nil => rfl
  | cons pair pairs ih =>
    have hcons : t.insertAll (pair :: pairs) = (t.insert pair.1 pair.2).insertAll pairs := rfl
    rw [hcons, ih, List.reverse_cons, List.append_assoc]
    rfl

theorem lookup_reverse_of_not_mem {key : String} {pairs : List (String × String)}
    (h : key ∉ pairs.map Prod.fst) : pairs.reverse.lookup key = none := by
  rw [List.lookup_eq_none_iff]
  intro pair hpair
  rw [bne_iff_ne]
  rintro rfl
  exact h (List.mem_map_of_mem (List.mem_reverse.mp hpair))

/-- Of several values for a key the last one counts. -/
theorem lookup_insertAll_append {key value : String} {front back : List (String × String)}
    (h : key ∉ back.map Prod.fst) (t : LookupTable) :
    (t.insertAll (front ++ (key, value) :: back)).statics.lookup key = some value := by
  rw [statics_insertAll, List.reverse_append, List.reverse_cons, List.append_assoc,
    List.append_assoc, List.lookup_append, lookup_reverse_of_not_mem h, Option.none_or,
    List.singleton_append, List.lookup_cons_self]

theorem lookup_insertAll_of_not_mem {key : String} {pairs : List (String × String)}
    (h : key ∉ pairs.map Prod.fst) (t : LookupTable) :
    (t.insertAll pairs).statics.lookup key = t.statics.lookup key := by
  rw [statics_insertAll, List.lookup_append, lookup_reverse_of_not_mem h, Option.none_or]

/-- **Properties are read as they were written.** A text that holds properties is
parsed as these, in their order, and a file with the text is loaded as these. In
a table that they are inserted in, each key has the last value given for it, and
any other key the value it had. -/
theorem parseProperties_written {pairs : List (String × String)} {s : List Char}
    (h : PropertyText pairs s) :
    parseProperties (String.ofList s) = pairs ∧
      ∀ (files : FileSystem) (path : String), files.readText path = .ok (String.ofList s) →
        loadProperties files path = .ok pairs ∧ ∀ t : LookupTable,
          (∀ front key value back, pairs = front ++ (key, value) :: back →
            key ∉ back.map Prod.fst → (t.insertAll pairs).statics.lookup key = some value) ∧
          ∀ key ∉ pairs.map Prod.fst,
            (t.insertAll pairs).statics.lookup key = t.statics.lookup key := by
  have hparse := parseProperties_eq h
  refine ⟨hparse, fun files path hread => ⟨?_, fun t => ⟨?_, ?_⟩⟩⟩
  · rw [loadProperties, hread]
    exact congrArg Except.ok hparse
  · rintro front key value back rfl hback
    exact lookup_insertAll_append hback t
  · exact fun key hkey => lookup_insertAll_of_not_mem hkey t

/-- A file with two values for a key of special characters, the second one wrapped
within the key, before the separator and at its end, and with an empty key that
has no value. -/
def wrappedProperties : List Char :=
  ("! old \\\n\\ \\#k=a\\=b\\\\\n \t\n\\ \\\n  \\#k\\\n\t=\\\u2003\\n\\!\\\n\n\n" ++
    "# none\n=\\\n").toList

theorem propertyText_wrappedProperties :
    PropertyText [(" #k", "a=b\\"), (" #k", "\u2003\n!"), ("", "")] wrappedProperties := by
  have hspaces : ∀ c ∈ [' ', ' '], c = ' ' ∨ c = '\t' := List.all_iff_forall_prop.mp (by decide)
  have htab : ∀ c ∈ ['\t'], c = ' ' ∨ c = '\t' := List.all_iff_forall_prop.mp (by decide)
  have hnone : ∀ c ∈ ([] : List Char), c = ' ' ∨ c = '\t' := List.forall_mem_nil _
  have hfirst : Wrapped (propertyPieces " #k" "a=b\\")
      (propertyPieces " #k" "a=b\\").flatten := wrapped_flatten _
  have hsecond : Wrapped (propertyPieces " #k" "\u2003\n!")
      (['\\', ' '] ++ '\\' :: '\n' :: ([' ', ' '] ++ (['\\', '#'] ++ (['k'] ++ '\\' :: '\n' ::
        (['\t'] ++ (['='] ++ (['\\', '\u2003'] ++ (['\\', 'n'] ++ (['\\', '!'] ++
          '\\' :: '\n' :: ([] ++ [])))))))))) := by
    have hpieces : propertyPieces " #k" "\u2003\n!" =
        [['\\', ' '], ['\\', '#'], ['k'], ['='], ['\\', '\u2003'], ['\\', 'n'], ['\\', '!']] := by
      decide
    rw [hpieces]
    exact .piece (.wrap hspaces (.piece (.piece (.wrap htab (.piece (.piece (.piece (.piece
      (.wrap hnone .nil)))))))))
  have hthird : Wrapped (propertyPieces "" "") (['='] ++ '\\' :: '\n' :: ([] ++ [])) :=
    .piece (.wrap hnone .nil)
  have hold : IsRemarkLine ([] ++ '!' :: " old \\".toList) :=
    .comment (List.forall_mem_nil _) (by decide) (.inr rfl) (by decide)
  have hblank : IsRemarkLine [' ', '\t'] := .blank (List.all_eq_true.mp (by decide)) (by decide)
  have hempty : IsRemarkLine [] := .blank (List.forall_mem_nil _) (by decide)
  have hnumber : IsRemarkLine ([] ++ '#' :: " none".toList) :=
    .comment (List.forall_mem_nil _) (by decide) (.inl rfl) (by decide)
  have hlines := PropertyText.remark hold (.property hfirst (.remark hblank (.property hsecond
    (.remark hempty (.remark hnumber (.lastProperty hthird))))))
  refine Eq.mp (congrArg (PropertyText _) ?_) hlines
  decide +kernel

/-- The file is read as its three pairs; in a table with them the key has the
second value, and the empty key has the empty one. -/
theorem reads_wrappedProperties :
    let files : FileSystem :=
      { entries := [(["m"], .file (.text (String.ofList wrappedProperties)))] }
    let pairs := [(" #k", "a=b\\"), (" #k", "\u2003\n!"), ("", "")]
    PropertyText pairs wrappedProperties ∧
      files.readText "m" = .ok (String.ofList wrappedProperties) ∧
      parseProperties (String.ofList wrappedProperties) = pairs ∧
      loadProperties files "m" = .ok pairs ∧
      ∀ t : LookupTable, (t.insertAll pairs).statics.lookup " #k" = some "\u2003\n!" := by
  intro files pairs
  have hread : files.readText "m" = .ok (String.ofList wrappedProperties) := by rfl
  obtain ⟨hparse, hload⟩ := parseProperties_written propertyText_wrappedProperties
  obtain ⟨hloaded, htable⟩ := hload files "m" hread
  refine ⟨propertyText_wrappedProperties, hread, hparse, hloaded, fun t => ?_⟩
  exact (htable t).1 [(" #k", "a=b\\")] " #k" "\u2003\n!" [("", "")] rfl (by decide)

end Compositor.Macro
