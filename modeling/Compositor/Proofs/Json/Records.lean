/-
# Records read back

A record is written with one member under each of its names. The names are
distinct, and so each field is read as what was written under its name. A
list is read back if each of its items is.

Key theorems: `record?_obj`, `mapM_eq_some`, `printable_obj`,
`printable_array`.
-/
import Compositor.Json.Record
import Compositor.Proofs.Json.Reading

namespace Compositor.Json

/-! ### What is written can be read -/

theorem printable_obj {members : List (String × Json)} (h : ∀ m ∈ members, Printable m.2) :
    Printable (obj members) := by
  refine .object ?_ ?_
  · rintro m hm
    obtain ⟨member, -, rfl⟩ := List.mem_map.mp hm
    rfl
  · rintro m hm
    obtain ⟨member, hmember, rfl⟩ := List.mem_map.mp hm
    exact h member hmember

theorem printable_array {α : Type} {write : α → Json} {xs : List α}
    (h : ∀ x ∈ xs, Printable (write x)) : Printable (array (xs.map write)) := by
  refine .array fun v hv => ?_
  obtain ⟨x, hx, rfl⟩ := List.mem_map.mp hv
  exact h x hx

theorem printable_chosen (name : String) {v : Json} (h : Printable v) :
    Printable (chosen name v) :=
  printable_obj fun _ hm => List.mem_singleton.mp hm ▸ h

theorem printable_int (n : Int) : Printable (int n) := .number (isProper_ofInt n)

/-! ### Fields -/

/-- The members of a record, as they are read. -/
def members (names : List String) (values : List Json) : List (Option String × Json) :=
  (names.zip values).map fun (key, v) => (some key, v)

section Fields

variable {names : List String} {values : List Json}

/-- Of distinct names, each finds what stands in its place. -/
theorem lookup_members (hnames : names.Nodup) (hlength : names.length = values.length) :
    (names.map fun name => (members names values).lookup (some name)) = values.map some := by
  induction names generalizing values with
  | nil =>
    rw [List.eq_nil_of_length_eq_zero hlength.symm]
    rfl
  | cons name names ih =>
    cases values with
    | nil => cases hlength
    | cons v vs =>
      obtain ⟨hname, hrest⟩ := List.nodup_cons.mp hnames
      have hmembers : members (name :: names) (v :: vs) = (some name, v) :: members names vs := rfl
      rw [List.map_cons, List.map_cons, ← ih hrest (Nat.succ.inj hlength), hmembers]
      refine List.cons_eq_cons.mpr ⟨?_, List.map_congr_left fun other hother => ?_⟩
      · rw [List.lookup_cons, beq_self_eq_true]
      · have hne : (some other == some name) = false := by
          refine beq_eq_false_iff_ne.mpr fun heq => hname ?_
          rw [← Option.some.inj heq]
          exact hother
        rw [List.lookup_cons, hne]

theorem countP_members_le (hnames : names.Nodup) (hlength : names.length = values.length)
    (name : String) : (members names values).countP (fun m => m.1 = some name) ≤ 1 := by
  have htest : (fun m : Option String × Json => decide (m.1 = some name)) ∘
      (fun member : String × Json => (some member.1, member.2)) =
        (· == name) ∘ Prod.fst :=
    funext fun member => by by_cases h : member.1 = name <;> simp [h]
  calc (members names values).countP (fun m => m.1 = some name)
      = (names.zip values).countP ((· == name) ∘ Prod.fst) := by
        rw [members, List.countP_map, ← htest]
    _ = names.count name := by
        rw [← List.countP_map, List.map_fst_zip (Nat.le_of_eq hlength), List.count]
    _ ≤ 1 := List.nodup_iff_count.mp hnames name

/-- A record with a member under each of its names is read by the order of the
names. -/
theorem record?_obj (values : List Json) (spare : Nat) (hnames : names.Nodup)
    (hlength : names.length = values.length) :
    record? names spare (obj (names.zip values)) = some (values.map some) := by
  have hkeys : ((members names values).all fun m => m.1.isSome) = true := by
    refine List.all_eq_true.mpr fun m hm => ?_
    obtain ⟨member, -, rfl⟩ := List.mem_map.mp hm
    rfl
  have honce : (names.all fun name =>
      decide ((members names values).countP (fun m => m.1 = some name) ≤ 1)) = true :=
    List.all_eq_true.mpr fun name _ => decide_eq_true (countP_members_le hnames hlength name)
  show fieldsOf? names (members names values) = _
  rw [fieldsOf?, hkeys, honce, if_pos (by rfl), lookup_members hnames hlength]

end Fields

/-! ### Lists -/

/-- If each item is read as its part in the outcome, so is the list. -/
theorem mapM_eq_some {α β γ : Type} {read : β → Option γ} {write : α → β} {f : α → γ}
    {xs : List α} (h : ∀ x ∈ xs, read (write x) = some (f x)) :
    (xs.map write).mapM read = some (xs.map f) := by
  induction xs with
  | nil => rfl
  | cons x xs ih =>
    obtain ⟨hx, hxs⟩ := List.forall_mem_cons.mp h
    rw [List.map_cons, List.mapM_cons, hx, ih hxs]
    rfl

theorem list?_map {α β : Type} {read : Json → Option β} {write : α → Json} {f : α → β} {xs : List α}
    (h : ∀ x ∈ xs, read (write x) = some (f x)) :
    list? read (array (xs.map write)) = some (xs.map f) := mapM_eq_some h

end Compositor.Json
