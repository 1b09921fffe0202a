/-
# The order of the handlers

Handlers of different kinds can be asked in any order. The one that accepts a
token is the same in every order, and all that those before it can do is warn
of a forbidden override. So passes whose handlers differ in their order only
are in lockstep: they make the same edits, give the same ids, report the same
and leave the same behind, up to such warnings.

Key definition: `SameUpToOrder`.
Key theorems: `dispatch_of_none_accepts`, `dispatch_of_accept`,
`lockstep_sameUpToOrder`, `run_permuted`.
-/
import Compositor.Proofs.Keeping
import Compositor.Proofs.Macro.Lockstep

namespace Compositor.Macro
open Job

/-! ### Dispatch -/

/-- A token that no handler accepts leads to warnings at most. -/
theorem dispatch_of_none_accepts {t : Token} {hs : List Handler}
    (hnone : ∀ h ∈ hs, h.judge t ≠ .accept) (r : TextRange) :
    ∃ warnings : Job Unit, warnings.Silent ∧
      dispatch r t hs = (do
        warnings
        return ⟨false, none, hs⟩) := by
  induction hs with
  | nil => exact ⟨pure (), silent_pure, rfl⟩
  | cons h hs ih =>
    obtain ⟨warning, hwarning, hfirst⟩ :=
      dispatch_of_not_accept (hnone h List.mem_cons_self) r hs
    obtain ⟨warnings, hwarnings, hrest⟩ := ih fun g hg => hnone g (List.mem_cons_of_mem h hg)
    refine ⟨_, hwarning.bind hwarnings, ?_⟩
    rw [hfirst, hrest]
    simp only [bind_assoc, pure_bind]

/-- A token goes to the first handler that accepts it, after warnings at most,
and this handler alone is another one then. -/
theorem dispatch_of_accept {t : Token} {front back : List Handler} {h : Handler}
    (hfront : ∀ g ∈ front, g.judge t ≠ .accept) (hjudge : h.judge t = .accept) (r : TextRange) :
    ∃ warnings : Job Unit, warnings.Silent ∧
      dispatch r t (front ++ h :: back) = (do
        warnings
        let done ← h.substitute r t
        return ⟨true, done.1, front ++ done.2 :: back⟩) := by
  induction front with
  | nil =>
    refine ⟨pure (), silent_pure, ?_⟩
    rw [List.nil_append, dispatch, hjudge]
    rfl
  | cons g front ih =>
    obtain ⟨warning, hwarning, hfirst⟩ :=
      dispatch_of_not_accept (hfront g List.mem_cons_self) r (front ++ h :: back)
    obtain ⟨warnings, hwarnings, hrest⟩ := ih fun f hf => hfront f (List.mem_cons_of_mem g hf)
    refine ⟨_, hwarning.bind hwarnings, ?_⟩
    rw [List.cons_append, hfirst, hrest]
    simp only [bind_assoc, pure_bind, List.cons_append]

/-! ### Handlers in another order -/

/-- The same handlers in another order, no two of them of one kind. -/
structure SameUpToOrder (hs hs' : List Handler) : Prop where
  perm : hs.Perm hs'
  kinds : (hs.map Handler.kind).Nodup

namespace SameUpToOrder

variable {hs hs' : List Handler}

theorem kinds' (h : SameUpToOrder hs hs') : (hs'.map Handler.kind).Nodup :=
  (h.perm.map Handler.kind).nodup_iff.mp h.kinds

/-- A handler that has become another one of its kind. -/
theorem exchange {front back front' back' : List Handler} {g h : Handler}
    (hperm : SameUpToOrder (front ++ h :: back) (front' ++ h :: back')) (hkind : g.kind = h.kind) :
    SameUpToOrder (front ++ g :: back) (front' ++ g :: back') := by
  have hothers : (front ++ back).Perm (front' ++ back') :=
    (List.perm_middle.symm.trans (hperm.perm.trans List.perm_middle)).cons_inv
  constructor
  · calc (front ++ g :: back).Perm (g :: (front ++ back)) := List.perm_middle
      List.Perm _ (g :: (front' ++ back')) := hothers.cons g
      List.Perm _ (front' ++ g :: back') := List.perm_middle.symm
  · have hkinds := hperm.kinds
    rw [List.map_append, List.map_cons] at hkinds ⊢
    rwa [hkind]

end SameUpToOrder

/-- In any order the handlers do the same with a token. -/
theorem lockstep_sameUpToOrder : Lockstep SameUpToOrder := by
  intro r t hs hs' h
  by_cases haccept : ∃ g ∈ hs, g.judge t = .accept
  · -- the handler that accepts the token is at some place in either list
    obtain ⟨g, hg, hjudge⟩ := haccept
    obtain ⟨front, back, rfl⟩ := List.append_of_mem hg
    obtain ⟨front', back', rfl⟩ := List.append_of_mem (h.perm.mem_iff.mp hg)
    have hfront := not_accept_around h.kinds hjudge
    have hfront' := not_accept_around h.kinds' hjudge
    obtain ⟨warnings, hwarnings, heq⟩ :=
      dispatch_of_accept (fun f hf => hfront f (List.mem_append_left _ hf)) hjudge r
    obtain ⟨warnings', hwarnings', heq'⟩ :=
      dispatch_of_accept (fun f hf => hfront' f (List.mem_append_left _ hf)) hjudge r
    rw [heq, heq']
    refine (hwarnings.alike hwarnings').bind fun _ _ _ => ?_
    refine (Handler.alike_substitute_self r t g).bind fun done done' hdone => ?_
    obtain ⟨rfl, hkind⟩ := hdone
    exact alike_pure ⟨rfl, rfl, h.exchange hkind⟩
  · have hnone : ∀ g ∈ hs, g.judge t ≠ .accept := fun g hg hjudge => haccept ⟨g, hg, hjudge⟩
    have hnone' : ∀ g ∈ hs', g.judge t ≠ .accept := fun g hg =>
      hnone g (h.perm.mem_iff.mpr hg)
    obtain ⟨warnings, hwarnings, heq⟩ := dispatch_of_none_accepts hnone r
    obtain ⟨warnings', hwarnings', heq'⟩ := dispatch_of_none_accepts hnone' r
    rw [heq, heq']
    exact (hwarnings.alike hwarnings').bind fun _ _ _ => alike_pure ⟨rfl, rfl, h⟩

/-- **The order of the handlers does not matter.** Of handlers of different
kinds one at most accepts a token. So a pass with the handlers in any other
order stops with the same fault or ends with the same report, and leaves the
same document with the same ids, the same directives known to be missing, the
same formulas and notices, and the same diagnostics but for the warnings of
forbidden overrides. -/
theorem run_permuted {hs hs' : List Handler} (hkinds : (hs.map Handler.kind).Nodup)
    (hperm : hs.Perm hs') :
    (∀ t, hs.countP (fun h => h.judge t = .accept) ≤ 1) ∧
    ∀ pattern s,
      EndsAlike Eq ((Pass.run ⟨pattern, hs⟩).run s) ((Pass.run ⟨pattern, hs'⟩).run s) := by
  refine ⟨countP_accept_le_one hkinds, fun pattern s => ?_⟩
  exact lockstep_sameUpToOrder.run pattern ⟨hperm, hkinds⟩ s s (.refl s)

/-- A table with a value under the name of the token for contents. -/
def overridingTable : LookupTable where
  clock := ⟨2024, 1, 1, 0, 0, 0, 0⟩
  statics := [("TOC", "none"), ("A", "one")]

def valuesFirst : List Handler := [.value overridingTable, .contents "Contents"]

def contentsFirst : List Handler := [.contents "Contents", .value overridingTable]

/-- A session with a token for contents and one for a value. -/
def contentsAndValue : Session where
  document := .ofBlocks "Report" [.paragraph (.plain "%TOC% %A%")]

/-- The handler of values warns of the override if it is asked first, and does
not if it is asked last. Nothing else differs. -/
theorem run_contentsFirst :
    (valuesFirst.map Handler.kind).Nodup ∧ valuesFirst.Perm contentsFirst ∧
    ∃ report s s',
      (Pass.run { handlers := valuesFirst }).run contentsAndValue = .ok report s ∧
      (Pass.run { handlers := contentsFirst }).run contentsAndValue = .ok report s' ∧
      s'.document = s.document ∧ report.substituted = 2 ∧
      s.journal.diagnostics.map (·.kind) = [.forbiddenOverride] ∧ s'.journal.diagnostics = [] := by
  have hkinds : (valuesFirst.map Handler.kind).Nodup := by decide
  have hperm : valuesFirst.Perm contentsFirst := .swap _ _ []
  have hvalues : (Pass.run { handlers := valuesFirst }).Leaves contentsAndValue
      (fun report s => report.substituted = 2 ∧
        s.journal.diagnostics.map (·.kind) = [.forbiddenOverride])
      fun _ _ => False := by
    decide +kernel
  have hcontents : (Pass.run { handlers := contentsFirst }).Leaves contentsAndValue
      (fun _ s => s.journal.diagnostics = []) fun _ _ => False := by
    decide +kernel
  have halike := (run_permuted hkinds hperm).2 macroPattern contentsAndValue
  unfold Job.Leaves at hvalues hcontents
  refine ⟨hkinds, hperm, ?_⟩
  generalize (Pass.run { handlers := valuesFirst }).run contentsAndValue = x,
    (Pass.run { handlers := contentsFirst }).run contentsAndValue = y at hvalues hcontents halike ⊢
  cases halike with
  | @ok report report' s s' hreport hs =>
    subst hreport
    exact ⟨report, s, s', rfl, rfl, hs.document, hvalues.1, hvalues.2, hcontents⟩
  | error e hs => exact hvalues.elim

end Compositor.Macro
