/-
# How deep directives are nested

A directive that brings in a document counts at each level at which it
stands. One whose file is missing counts at its first level only: it is met
there, and known from then on. The nesting of some blocks is the greatest
level that counts, and it is infinite if a document reached includes itself.

Key definitions: `Workspace.PendingAt`, `Workspace.nesting`,
`Workspace.IncludesItself`.
Key theorems: `nesting_le_iff`, `pendingAt_of_le`, `nesting_eq`,
`nesting_eq_top_iff`.
-/
import Mathlib
import Compositor.Proofs.File.Loadable
import Compositor.Proofs.Macro.Directives

namespace Compositor.Workspace

variable {w : Workspace} {bs : List Block}

/-- The first level at which a directive stands. -/
noncomputable def firstLevel (w : Workspace) (bs : List Block) (x : String) : ℕ∞ :=
  ⨅ (k : ℕ) (_ : w.AtLevel bs k x), (k : ℕ∞)

/-- The greatest level of a directive that brings in a document or, if that is
greater, the greatest first level of a directive that is missing. -/
noncomputable def nesting (w : Workspace) (bs : List Block) : ℕ∞ :=
  (⨆ (k : ℕ) (_ : ∃ x d, w.AtLevel bs k x ∧ w.brought? x = some d), (k : ℕ∞)) ⊔
    ⨆ (x : String) (_ : w.brought? x = none ∧ ∃ k, w.AtLevel bs k x), w.firstLevel bs x

/-- At the level stands a directive that brings in a document, or one that is
missing and stands at no level above. -/
def PendingAt (w : Workspace) (bs : List Block) (k : ℕ) : Prop :=
  ∃ x, w.AtLevel bs k x ∧ (w.brought? x = none → ∀ j < k, ¬ w.AtLevel bs j x)

theorem pendingAt_of_brought? {k : ℕ} {x : String} {d : Document} (hx : w.AtLevel bs k x)
    (hd : w.brought? x = some d) : w.PendingAt bs k := by
  refine ⟨x, hx, fun hnone => ?_⟩
  rw [hd] at hnone
  cases hnone

theorem firstLevel_eq {k : ℕ} {x : String} (hx : w.AtLevel bs k x)
    (hfirst : ∀ j < k, ¬ w.AtLevel bs j x) : w.firstLevel bs x = k := by
  refine le_antisymm (iInf₂_le k hx) (le_iInf₂ fun j hj => ?_)
  exact Nat.cast_le.mpr (Nat.le_of_not_lt fun hlt => hfirst j hlt hj)

theorem exists_first {k : ℕ} {x : String} (hx : w.AtLevel bs k x) :
    ∃ j, w.AtLevel bs j x ∧ ∀ i < j, ¬ w.AtLevel bs i x := by
  classical
  have hstands : ∃ k, w.AtLevel bs k x := ⟨k, hx⟩
  exact ⟨Nat.find hstands, Nat.find_spec hstands, fun i hi => Nat.find_min hstands hi⟩

/-- The nesting is the greatest level at which something is pending. -/
theorem nesting_le_iff {n : ℕ∞} :
    w.nesting bs ≤ n ↔ ∀ k : ℕ, w.PendingAt bs k → (k : ℕ∞) ≤ n := by
  rw [nesting, sup_le_iff, iSup₂_le_iff, iSup₂_le_iff]
  constructor
  · rintro ⟨hbrought, hmissing⟩ k ⟨x, hx, hfirst⟩
    cases hd : w.brought? x with
    | some d => exact hbrought k ⟨x, d, hx, hd⟩
    | none =>
      rw [← firstLevel_eq hx (hfirst hd)]
      exact hmissing x ⟨hd, k, hx⟩
  · intro h
    refine ⟨?_, ?_⟩
    · rintro k ⟨x, d, hx, hd⟩
      exact h k (pendingAt_of_brought? hx hd)
    · rintro x ⟨-, k, hx⟩
      obtain ⟨j, hj, hfirst⟩ := exists_first hx
      rw [firstLevel_eq hj hfirst]
      exact h j ⟨x, hj, fun _ => hfirst⟩

theorem PendingAt.le_nesting {k : ℕ} (h : w.PendingAt bs k) : (k : ℕ∞) ≤ w.nesting bs :=
  nesting_le_iff.mp le_rfl k h

/-- Above a level at which something is pending there is no gap. -/
theorem pendingAt_of_le {j k : ℕ} (h : w.PendingAt bs k) (hj : 0 < j) (hle : j ≤ k) :
    w.PendingAt bs j := by
  induction k with
  | zero => omega
  | succ k ih =>
    rcases Nat.lt_or_ge k j with hlt | hge
    · obtain rfl : j = k + 1 := by omega
      exact h
    · obtain ⟨y, hy, -⟩ := h
      obtain ⟨x, d, hx, hd, -⟩ := (atLevel_succ_iff (by omega)).mp hy
      exact ih (pendingAt_of_brought? hx hd) hge

/-- Where the levels at which something is pending end. -/
theorem nesting_eq {n : ℕ} (hn : n = 0 ∨ w.PendingAt bs n) (hnext : ¬ w.PendingAt bs (n + 1)) :
    w.nesting bs = n := by
  refine le_antisymm (nesting_le_iff.mpr fun k hk => ?_) ?_
  · refine Nat.cast_le.mpr (Nat.le_of_not_lt fun hlt => ?_)
    exact hnext (pendingAt_of_le hk (Nat.succ_pos n) hlt)
  · rcases hn with rfl | hn
    · exact zero_le
    · exact hn.le_nesting

/-! ### Documents that include themselves -/

/-- A document that is reached is reached again from itself, maybe by another
path to its file. -/
def IncludesItself (w : Workspace) (bs : List Block) : Prop :=
  ∃ d d', w.Reaches bs d ∧ w.Reaches d.blocks d' ∧ d'.blocks = d.blocks

theorem AtLevel.trans {k j : ℕ} {x y : String} {d : Document} (hx : w.AtLevel bs k x)
    (hd : w.brought? x = some d) (hy : w.AtLevel d.blocks j y) : w.AtLevel bs (k + j) y := by
  induction hy with
  | top hy => exact .inside hx hd hy
  | inside _ hd' hz ih => exact .inside ih hd' hz

theorem nesting_eq_top (h : w.IncludesItself bs) : w.nesting bs = ⊤ := by
  obtain ⟨d, d', ⟨k, x, hx, hd⟩, ⟨j, y, hy, hd'⟩, hblocks⟩ := h
  -- every round adds levels
  have hround : ∀ n : ℕ, ∃ k x d', n ≤ k ∧ w.AtLevel bs k x ∧ w.brought? x = some d' ∧
      d'.blocks = d.blocks := by
    intro n
    induction n with
    | zero => exact ⟨k, x, d, Nat.zero_le _, hx, hd, rfl⟩
    | succ n ih =>
      obtain ⟨i, z, e, hle, hz, he, heblocks⟩ := ih
      have hpos := hy.pos
      refine ⟨i + j, y, d', by omega, hz.trans he ?_, hd', hblocks⟩
      rw [heblocks]
      exact hy
  refine ENat.eq_top_iff_forall_ge.mpr fun n => ?_
  obtain ⟨i, z, e, hle, hz, he, -⟩ := hround n
  exact (Nat.cast_le.mpr hle).trans (pendingAt_of_brought? hz he).le_nesting

/-! ### Documents that do not -/

theorem blocks_of_brought? {x : String} {d : Document} (h : w.brought? x = some d) :
    d.blocks ∈ w.files.loadable := by
  unfold brought? at h
  split at h
  · cases hload : w.files.loadDocument (w.pathOf x) with
    | error e =>
      rw [hload] at h
      cases h
    | ok d' =>
      rw [hload] at h
      cases h
      exact FileSystem.blocks_mem_loadable hload
  · cases h

/-- If all files hold documents without tables, no cell holds a directive. -/
theorem clearCells_of_no_tables
    (h : ((bs :: w.files.loadable).all fun bs => bs.all fun b => b.table?.isNone) = true) :
    w.ClearCells bs := by
  have hnone : ∀ bs' ∈ bs :: w.files.loadable, ∀ t, Block.table t ∉ bs' := by
    intro bs' hbs' t ht
    cases List.all_eq_true.mp (List.all_eq_true.mp h bs' hbs') _ ht
  refine ⟨fun t ht => absurd ht (hnone bs List.mem_cons_self t), ?_⟩
  rintro d ⟨k, x, -, hd⟩ t ht
  exact absurd ht (hnone d.blocks (List.mem_cons_of_mem _ (blocks_of_brought? hd)) t)

/-- The way to a document: the documents brought in one after the other, the
last one first. Each of them is reached from those before it. -/
theorem exists_chain {k : ℕ} {x : String} {d : Document} (hx : w.AtLevel bs k x)
    (hd : w.brought? x = some d) :
    ∃ chain : List Document, chain.length = k ∧
      (∀ e ∈ chain, w.Reaches bs e ∧ e.blocks ∈ w.files.loadable ∧ (e = d ∨ w.Reaches e.blocks d)) ∧
      chain.Pairwise fun e e' => w.Reaches e'.blocks e := by
  induction hx generalizing d with
  | @top x hx =>
    refine ⟨[d], rfl, fun e he => ?_, List.pairwise_singleton _ _⟩
    obtain rfl := List.mem_singleton.mp he
    exact ⟨⟨1, x, .top hx, hd⟩, blocks_of_brought? hd, .inl rfl⟩
  | @inside k x y d' hx hd' hy ih =>
    obtain ⟨chain, hlength, hchain, hreaches⟩ := ih hd'
    have hbelow : ∀ e ∈ chain, w.Reaches e.blocks d := by
      intro e he
      rcases (hchain e he).2.2 with rfl | ⟨j, z, hz, hd''⟩
      · exact ⟨1, y, .top hy, hd⟩
      · exact ⟨j + 1, y, .inside hz hd'' hy, hd⟩
    refine ⟨d :: chain, congrArg (· + 1) hlength, fun e he => ?_, .cons hbelow hreaches⟩
    rcases List.mem_cons.mp he with rfl | he
    · exact ⟨⟨k + 1, y, .inside hx hd' hy, hd⟩, blocks_of_brought? hd, .inl rfl⟩
    · exact ⟨(hchain e he).1, (hchain e he).2.1, .inr (hbelow e he)⟩

/-- Without a document that includes itself there are no more levels than
contents. -/
theorem level_le_of_not_includesItself (h : ¬ w.IncludesItself bs) {k : ℕ} {x : String}
    {d : Document} (hx : w.AtLevel bs k x) (hd : w.brought? x = some d) :
    k ≤ w.files.loadable.length := by
  obtain ⟨chain, rfl, hchain, hreaches⟩ := exists_chain hx hd
  have hdistinct : (chain.map Document.blocks).Nodup := by
    refine List.pairwise_map.mpr (hreaches.imp_of_mem ?_)
    intro e e' he he' hreach hsame
    exact h ⟨e', e, (hchain e' he').1, hreach, hsame⟩
  have hsubset : chain.map Document.blocks ⊆ w.files.loadable := by
    intro bs' hbs'
    obtain ⟨e, he, rfl⟩ := List.mem_map.mp hbs'
    exact (hchain e he).2.1
  have hle := (hdistinct.subperm hsubset).length_le
  rwa [List.length_map] at hle

/-- The nesting is infinite exactly if a document includes itself. -/
theorem nesting_eq_top_iff : w.nesting bs = ⊤ ↔ w.IncludesItself bs := by
  refine ⟨fun htop => ?_, nesting_eq_top⟩
  by_contra hnot
  have hle : w.nesting bs ≤ (w.files.loadable.length + 1 : ℕ) := by
    refine nesting_le_iff.mpr fun k hk => Nat.cast_le.mpr ?_
    obtain ⟨y, hy, -⟩ := hk
    cases k with
    | zero => exact Nat.zero_le _
    | succ k =>
      rcases Nat.eq_zero_or_pos k with rfl | hpos
      · omega
      · obtain ⟨x, d, hx, hd, -⟩ := (atLevel_succ_iff hpos).mp hy
        have := level_le_of_not_includesItself hnot hx hd
        omega
  rw [htop] at hle
  exact absurd hle (not_le_of_gt (ENat.natCast_lt_top _))

end Compositor.Workspace
