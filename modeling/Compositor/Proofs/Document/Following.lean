/-
# Ranges followed through edits

A range behind an edit moves along with its text. Followed through the edit
it reads what it read before, or it is gone and read nothing but blanks; and
of two ranges behind the edit the first one stays before the second.

Key definition: `TextRange.Before`.
Key theorems: `rebase_behind`, `Edited.reads_behind`, `Edited.reads_rebase`,
`Edited.before_rebase`.
-/
import Compositor.Proofs.Document.Edits

namespace Compositor
open Text

/-- The first range ends where the second one starts, or earlier, if both are
in one text. -/
def TextRange.Before (r r' : TextRange) : Prop :=
  r.block = r'.block → r.cell = r'.cell → r.stop ≤ r'.start

namespace TextRange

theorem rebase_elsewhere {r : TextRange} {e : Edit}
    (h : ¬ (r.block = e.range.block ∧ r.cell = e.range.cell)) : r.rebase e = some r := by
  have hfirst : r.block ≠ e.range.block ∨ r.cell ≠ e.range.cell ∨ r.stop ≤ e.range.start := by
    by_cases hblock : r.block = e.range.block
    · exact .inr (.inl fun hcell => h ⟨hblock, hcell⟩)
    · exact .inl hblock
  rw [rebase, if_pos hfirst]

/-- A range behind an edit in its text moves by what the text became longer
or shorter, or goes along to the paragraph that was split off. -/
theorem rebase_behind {r : TextRange} {e : Edit} (hblock : r.block = e.range.block)
    (hcell : r.cell = e.range.cell) (hstart : e.range.stop ≤ r.start)
    (hstop : e.range.start < r.stop) :
    r.rebase e =
      match e.kind with
      | .text inserted =>
        some { r with
          start := r.start - (e.range.stop - e.range.start) + inserted
          stop := r.stop - (e.range.stop - e.range.start) + inserted }
      | .split none => none
      | .split (some tail) =>
        some ⟨tail, none, r.start - e.range.stop, r.stop - e.range.stop⟩ := by
  have hfirst : ¬ (r.block ≠ e.range.block ∨ r.cell ≠ e.range.cell ∨ r.stop ≤ e.range.start) := by
    rintro (hne | hne | hle)
    · exact hne hblock
    · exact hne hcell
    · omega
  rw [rebase, if_neg hfirst]
  exact if_neg (by omega)

end TextRange

namespace Document

theorem allBlank_of_slice? {s x : List Char} {start stop : Nat} (hs : allBlank s = true)
    (h : slice? s start stop = some x) : allBlank x = true := by
  obtain ⟨u, v, rfl, -, -⟩ := slice?_eq_some_iff.mp h
  simp only [allBlank, List.all_append, Bool.and_eq_true] at hs ⊢
  exact hs.1.2

/-- A range in another text reads what it read before. -/
theorem Edited.reads_elsewhere {d d' : Document} {e : Edit} (h : d.Edited d' e) {r : TextRange}
    {y : List Char} (haddress : ¬ (r.block = e.range.block ∧ r.cell = e.range.cell))
    (hr : d.Reads r y) : d'.Reads r y := by
  obtain ⟨s, hs, hy⟩ := hr
  exact ⟨s, h.others r.block r.cell s haddress hs, hy⟩

/-- A range behind an edit in its text reads what it read before, unless
nothing but blanks is behind the edit. -/
theorem Edited.reads_behind {d d' : Document} {e : Edit} (h : d.Edited d' e) {r : TextRange}
    {y : List Char} (hr : d.Reads r y) (hblock : r.block = e.range.block)
    (hcell : r.cell = e.range.cell) (hstart : e.range.stop ≤ r.start)
    (hstop : e.range.start < r.stop) :
    match r.rebase e with
    | some r' => d'.Reads r' y
    | none => allBlank y = true := by
  obtain ⟨s, hs, hy⟩ := hr
  have hle := le_of_slice? hy
  obtain ⟨u, x, v, hat, hu, hx, hleaves⟩ := h.around
  rw [hblock, hcell, hat] at hs
  obtain rfl := Option.some.inj hs
  have hv := slice?_after hy (by omega)
  rw [TextRange.rebase_behind hblock hcell hstart hstop]
  cases hkind : e.kind with
  | text inserted =>
    rw [hkind] at hleaves
    obtain ⟨new, rfl, hnew⟩ := hleaves
    refine ⟨u ++ new ++ v, by rw [← hblock, ← hcell] at hnew; exact hnew, ?_⟩
    have hmoved := slice?_behind hv (u ++ new)
    have hshift : ∀ n, e.range.stop ≤ n →
        n - (e.range.stop - e.range.start) + size new = n - size (u ++ x) + size (u ++ new) := by
      intro n hn
      rw [hx, size_append u new, hu]
      rw [size_append, hu] at hx
      omega
    simp only [hshift r.start hstart, hshift r.stop (by omega)]
    exact hmoved
  | split tail? =>
    rw [hkind] at hleaves
    cases tail? with
    | none => exact allBlank_of_slice? hleaves hv
    | some tail => exact ⟨v, hleaves.2, by rw [← hx]; exact hv⟩

/-- A range behind an edit reads what it read before, or it is gone and read
nothing but blanks. -/
theorem Edited.reads_rebase {d d' : Document} {e : Edit} (h : d.Edited d' e)
    (hlt : e.range.start < e.range.stop) {r : TextRange} {y : List Char} (hr : d.Reads r y)
    (hbehind : e.range.Before r) :
    match r.rebase e with
    | some r' => d'.Reads r' y
    | none => allBlank y = true := by
  by_cases haddress : r.block = e.range.block ∧ r.cell = e.range.cell
  · obtain ⟨hblock, hcell⟩ := haddress
    have hstart := hbehind hblock.symm hcell.symm
    have hle : r.start ≤ r.stop := le_of_slice? hr.choose_spec.2
    exact h.reads_behind hr hblock hcell hstart (by omega)
  · rw [TextRange.rebase_elsewhere haddress]
    exact h.reads_elsewhere haddress hr

theorem Edited.freshId_le {d d' : Document} {e : Edit} (h : d.Edited d' e) {tail : Nat}
    (hkind : e.kind = .split (some tail)) : freshId d.nextId ≤ tail := by
  obtain ⟨u, x, v, -, -, -, hleaves⟩ := h.around
  rw [hkind] at hleaves
  exact hleaves.1

/-- The address of a range behind an edit, followed through it: that of the
range as before, or that of a fresh paragraph. -/
theorem Edited.address_rebase {d d' : Document} {e : Edit} (h : d.Edited d' e)
    (hlt : e.range.start < e.range.stop) {r r' : TextRange} (hle : r.start ≤ r.stop)
    (hbehind : e.range.Before r) (hrebase : r.rebase e = some r') :
    r'.block = r.block ∧ r'.cell = r.cell ∨
      freshId d.nextId ≤ r'.block ∧ r.block = e.range.block ∧ r.cell = e.range.cell := by
  by_cases haddress : r.block = e.range.block ∧ r.cell = e.range.cell
  · obtain ⟨hblock, hcell⟩ := haddress
    have hstart := hbehind hblock.symm hcell.symm
    rw [TextRange.rebase_behind hblock hcell hstart (by omega)] at hrebase
    cases hkind : e.kind with
    | text inserted =>
      rw [hkind] at hrebase
      obtain rfl := Option.some.inj hrebase
      exact .inl ⟨rfl, rfl⟩
    | split tail? =>
      cases tail? with
      | none => rw [hkind] at hrebase; cases hrebase
      | some tail =>
        have hfresh := h.freshId_le hkind
        rw [hkind] at hrebase
        obtain rfl := Option.some.inj hrebase
        exact .inr ⟨hfresh, hblock, hcell⟩
  · rw [TextRange.rebase_elsewhere haddress] at hrebase
    obtain rfl := Option.some.inj hrebase
    exact .inl ⟨rfl, rfl⟩

/-- Ranges behind an edit stay in their order. -/
theorem Edited.before_rebase {d d' : Document} {e : Edit} (hd : d.Numbered) (h : d.Edited d' e)
    (hlt : e.range.start < e.range.stop) {r₁ r₂ q₁ q₂ : TextRange} {y₁ y₂ : List Char}
    (hr₁ : d.Reads r₁ y₁) (hr₂ : d.Reads r₂ y₂) (hb₁ : e.range.Before r₁)
    (hb₂ : e.range.Before r₂) (hbefore : r₁.Before r₂) (hq₁ : r₁.rebase e = some q₁)
    (hq₂ : r₂.rebase e = some q₂) : q₁.Before q₂ := by
  obtain ⟨s₁, hs₁, hy₁⟩ := hr₁
  obtain ⟨s₂, hs₂, hy₂⟩ := hr₂
  have hle₁ := le_of_slice? hy₁
  have hle₂ := le_of_slice? hy₂
  have hlow₁ := hd.lt_of_textAt hs₁
  have hlow₂ := hd.lt_of_textAt hs₂
  intro hblock hcell
  by_cases h₁ : r₁.block = e.range.block ∧ r₁.cell = e.range.cell
  · by_cases h₂ : r₂.block = e.range.block ∧ r₂.cell = e.range.cell
    · -- both move alike
      have hstop := hbefore (h₁.1.trans h₂.1.symm) (h₁.2.trans h₂.2.symm)
      have hstart₁ := hb₁ h₁.1.symm h₁.2.symm
      have hstart₂ := hb₂ h₂.1.symm h₂.2.symm
      rw [TextRange.rebase_behind h₁.1 h₁.2 hstart₁ (by omega)] at hq₁
      rw [TextRange.rebase_behind h₂.1 h₂.2 hstart₂ (by omega)] at hq₂
      cases hkind : e.kind with
      | text inserted =>
        rw [hkind] at hq₁ hq₂
        obtain rfl := Option.some.inj hq₁
        obtain rfl := Option.some.inj hq₂
        show r₁.stop - (e.range.stop - e.range.start) + inserted ≤
          r₂.start - (e.range.stop - e.range.start) + inserted
        omega
      | split tail? =>
        rw [hkind] at hq₁ hq₂
        cases tail? with
        | none => cases hq₁
        | some tail =>
          obtain rfl := Option.some.inj hq₁
          obtain rfl := Option.some.inj hq₂
          show r₁.stop - e.range.stop ≤ r₂.start - e.range.stop
          omega
    · rw [TextRange.rebase_elsewhere h₂] at hq₂
      obtain rfl := Option.some.inj hq₂
      rcases h.address_rebase hlt hle₁ hb₁ hq₁ with ⟨hb, hc⟩ | ⟨hfresh, -⟩
      · exact absurd ⟨(hblock.symm.trans hb).trans h₁.1, (hcell.symm.trans hc).trans h₁.2⟩ h₂
      · omega
  · rw [TextRange.rebase_elsewhere h₁] at hq₁
    obtain rfl := Option.some.inj hq₁
    rcases h.address_rebase hlt hle₂ hb₂ hq₂ with ⟨hb, hc⟩ | ⟨hfresh, hb, hc⟩
    · by_cases h₂ : r₂.block = e.range.block ∧ r₂.cell = e.range.cell
      · exact absurd ⟨(hblock.trans hb).trans h₂.1, (hcell.trans hc).trans h₂.2⟩ h₁
      · rw [TextRange.rebase_elsewhere h₂] at hq₂
        obtain rfl := Option.some.inj hq₂
        exact hbefore hblock hcell
    · omega

end Document
end Compositor
