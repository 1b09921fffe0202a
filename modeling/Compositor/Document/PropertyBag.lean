/-
# Properties of embedded objects

An object carries a bag of named values, sorted by name, each name once.

Key definitions: `PropertyValue`, `PropertyBag`, `PropertyBag.get?`,
`PropertyBag.insert`.
Key theorems: `PropertyBag.get?_insert`, `PropertyBag.get?_insert_of_ne`.
-/
namespace Compositor

/-- A value that an embedded object has under a name. -/
inductive PropertyValue where
  | text (value : String)
  | integer (value : Int64)
  | boolean (value : Bool)
  deriving Repr, DecidableEq

/-- Named values in the order of their names. -/
structure PropertyBag where
  entries : List (String × PropertyValue)
  sorted : entries.Pairwise fun a b => a.1 < b.1
  deriving Repr, DecidableEq

namespace PropertyBag

def empty : PropertyBag := ⟨[], .nil⟩

instance : Inhabited PropertyBag := ⟨empty⟩

/-- The value under a name. -/
def get? (bag : PropertyBag) (name : String) : Option PropertyValue :=
  bag.entries.lookup name

/-- The entries with `value` under `name`, at its place in the order. -/
def insertInto (name : String) (value : PropertyValue) :
    List (String × PropertyValue) → List (String × PropertyValue)
  | [] => [(name, value)]
  | e :: es =>
    if name < e.1 then (name, value) :: e :: es
    else if name = e.1 then (name, value) :: es
    else e :: insertInto name value es

theorem mem_insertInto {name : String} {value : PropertyValue}
    {es : List (String × PropertyValue)} {x : String × PropertyValue}
    (h : x ∈ insertInto name value es) : x = (name, value) ∨ x ∈ es := by
  induction es with
  | nil => simpa [insertInto] using h
  | cons e es ih =>
    unfold insertInto at h
    split at h
    · simpa using h
    · split at h
      · rcases List.mem_cons.1 h with h | h
        · exact .inl h
        · exact .inr (List.mem_cons_of_mem _ h)
      · rcases List.mem_cons.1 h with h | h
        · exact .inr (by simp [h])
        · rcases ih h with h | h
          · exact .inl h
          · exact .inr (List.mem_cons_of_mem _ h)

theorem pairwise_insertInto {name : String} {value : PropertyValue}
    {es : List (String × PropertyValue)} (h : es.Pairwise fun a b => a.1 < b.1) :
    (insertInto name value es).Pairwise fun a b => a.1 < b.1 := by
  induction es with
  | nil => simp [insertInto]
  | cons e es ih =>
    obtain ⟨he, hes⟩ := List.pairwise_cons.1 h
    unfold insertInto
    split
    · rename_i hlt
      refine List.pairwise_cons.2 ⟨?_, h⟩
      intro x hx
      rcases List.mem_cons.1 hx with rfl | hx
      · exact hlt
      · exact String.lt_trans hlt (he x hx)
    · split
      · rename_i heq
        exact List.pairwise_cons.2 ⟨fun x hx => heq ▸ he x hx, hes⟩
      · rename_i hlt hne
        refine List.pairwise_cons.2 ⟨?_, ih hes⟩
        intro x hx
        rcases mem_insertInto hx with rfl | hx
        · rw [String.not_lt] at hlt
          rcases Decidable.em (e.1 < name) with h | h
          · exact h
          · exact absurd (String.le_antisymm (String.not_lt.1 h) hlt) hne
        · exact he x hx

/-- The bag with `value` under `name`, in place of any value it had there. -/
def insert (bag : PropertyBag) (name : String) (value : PropertyValue) : PropertyBag :=
  ⟨insertInto name value bag.entries, pairwise_insertInto bag.sorted⟩

/-- The bag of the given values; of two under one name the later counts. -/
def ofList (entries : List (String × PropertyValue)) : PropertyBag :=
  entries.foldl (fun bag e => bag.insert e.1 e.2) empty

theorem get?_insert (bag : PropertyBag) (name : String) (value : PropertyValue) :
    (bag.insert name value).get? name = some value := by
  obtain ⟨es, hs⟩ := bag
  simp only [get?, insert]
  clear hs
  induction es with
  | nil => simp [insertInto]
  | cons e es ih =>
    obtain ⟨k, v⟩ := e
    unfold insertInto
    split
    · simp
    · split
      · simp
      · rename_i hne
        have hb : (name == k) = false := by simpa using hne
        rw [List.lookup_cons, hb]
        exact ih

theorem get?_insert_of_ne (bag : PropertyBag) {name other : String} (value : PropertyValue)
    (h : other ≠ name) : (bag.insert name value).get? other = bag.get? other := by
  obtain ⟨es, hs⟩ := bag
  simp only [get?, insert]
  clear hs
  have hb : (other == name) = false := by simpa using h
  induction es with
  | nil => simp [insertInto, List.lookup_cons, hb]
  | cons e es ih =>
    obtain ⟨k, v⟩ := e
    unfold insertInto
    split
    · rw [List.lookup_cons, hb]
    · split
      · rename_i heq
        replace heq : name = k := heq
        subst heq
        rw [List.lookup_cons, List.lookup_cons, hb]
      · rw [List.lookup_cons, List.lookup_cons, ih]

end PropertyBag
end Compositor
