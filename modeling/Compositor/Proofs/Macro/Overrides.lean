/-
# Values under built-in keys

The clock, the counters and the reserved names come before the values of the
user: under a built-in key a table answers the same whatever the user gave. A
table is read in three places, for the answer to a key, and for values under
the key and under the name of a reserved token. The first sees no value under a
built-in key, and the other two lead to a warning of a forbidden override at
most. So two passes whose tables differ under built-in keys only do the same
up to such warnings.

Key definitions: `IsBuiltIn`, `LookupTable.SameBut`, `Handler.Alike`.
Key theorems: `SameBut.lookup?_eq`, `lockstep_alike`, `alike_run`,
`alike_includeDocuments`.
-/
import Mathlib.Data.List.Forall2
import Compositor.Proofs.Macro.Lockstep

namespace Compositor.Macro
open Job

/-! ### Built-in keys -/

/-- The keys that the clock answers, but for those with a date pattern. -/
def clockKeys : List String := ["YEAR", "DATE", "TIME", "DATETIME"]

/-- The keys that the counters answer. -/
def counterKeys : List String := ["N_PAGES", "N_FIGURES", "N_TABLES", "N_FORMULAS"]

/-- The keys that are not for the user: those whose name is reserved, with or
without an argument, and those that the clock or the counters answer. -/
def IsBuiltIn (key : String) : Prop :=
  isReserved (keyName key) = true ∨ key ∈ clockKeys ∨ key ∈ counterKeys ∨
    ∃ pattern, key = "DATETIME(" ++ pattern ++ ")" ∧ (DatePattern.parse pattern).isOk = true

namespace LookupTable

variable {t t' : LookupTable}

/-- The tables differ at most in the counters and in what the user gave under
built-in keys. -/
structure SameBut (t t' : LookupTable) : Prop where
  locale : t'.locale = t.locale
  clock : t'.clock = t.clock
  statics : ∀ key, ¬ IsBuiltIn key → t'.statics.lookup key = t.statics.lookup key

theorem clockValue?_eq (h : t.SameBut t') (key : String) :
    t'.clockValue? key = t.clockValue? key := by
  unfold clockValue? datePattern?
  rw [h.locale, h.clock]

theorem staticValue?_of_reserved {key : String} (h : isReserved (keyName key) = true)
    (t : LookupTable) : t.staticValue? key = none := if_pos h

theorem isSome_format (m : Moment) {pattern : String}
    (h : (DatePattern.parse pattern).isOk = true) :
    (DatePattern.format m pattern).toOption.isSome = true := by
  unfold DatePattern.format
  cases hparse : DatePattern.parse pattern with
  | ok parts => rfl
  | error fault =>
    rw [hparse] at h
    cases h

/-- The short forms of every locale are date patterns. -/
theorem isOk_parse_locale (l : Locale) :
    (DatePattern.parse l.datePattern).isOk = true ∧
      (DatePattern.parse l.timePattern).isOk = true ∧
      (DatePattern.parse (l.datePattern ++ ", " ++ l.timePattern)).isOk = true := by
  cases l <;> decide +kernel

theorem patternArgument?_append (pattern : String) :
    patternArgument? ("DATETIME(" ++ pattern ++ ")") = some pattern := by
  have hafter : Text.after? "DATETIME(".toList ("DATETIME(" ++ pattern ++ ")").toList =
      some (pattern.toList ++ [')']) := by
    rw [Text.after?_eq_some_iff, String.toList_append, String.toList_append, List.append_assoc]
    rfl
  unfold patternArgument?
  rw [hafter]
  simp

/-- The clock answers its keys, whatever its table is. -/
theorem isSome_clockValue? (t : LookupTable) {key : String}
    (h : key ∈ clockKeys ∨
      ∃ pattern, key = "DATETIME(" ++ pattern ++ ")" ∧ (DatePattern.parse pattern).isOk = true) :
    (t.clockValue? key).isSome = true := by
  obtain ⟨hdate, htime, hboth⟩ := isOk_parse_locale t.locale
  unfold clockValue?
  split
  · rfl
  · rename_i hyear
    have hpattern : ∃ pattern, t.datePattern? key = some pattern ∧
        (DatePattern.parse pattern).isOk = true := by
      unfold datePattern?
      split
      · exact ⟨_, rfl, hdate⟩
      · split
        · exact ⟨_, rfl, htime⟩
        · split
          · exact ⟨_, rfl, hboth⟩
          · rcases h with h | ⟨pattern, rfl, hok⟩
            · simp_all [clockKeys]
            · exact ⟨pattern, patternArgument?_append pattern, hok⟩
    obtain ⟨pattern, hkey, hok⟩ := hpattern
    rw [hkey]
    exact isSome_format t.clock hok

theorem isSome_counterValue? {counts : Counts} (h : t.counters = some counts) {key : String}
    (hkey : key ∈ counterKeys) : (t.counterValue? key).isSome = true := by
  unfold counterValue?
  rw [h]
  simp only [counterKeys, List.mem_cons, List.not_mem_nil, or_false] at hkey
  rcases hkey with rfl | rfl | rfl | rfl <;> rfl

/-- With one count, the tables answer every key alike. -/
theorem SameBut.lookup?_eq (h : t.SameBut t') {counts : Counts} (hcounts : t.counters = some counts)
    (hcounts' : t'.counters = some counts) (key : String) : t'.lookup? key = t.lookup? key := by
  have hclock := clockValue?_eq h key
  have hcounter : t'.counterValue? key = t.counterValue? key := by
    unfold counterValue?
    rw [hcounts, hcounts']
  unfold lookup?
  rw [hclock, hcounter]
  by_cases hkey : IsBuiltIn key
  · -- an earlier layer answers the key, or no value answers it
    have hearlier : ((t.clockValue? key).or (t.counterValue? key)).isSome = true →
        ((t.clockValue? key).or (t.counterValue? key)).or (t'.staticValue? key) =
          ((t.clockValue? key).or (t.counterValue? key)).or (t.staticValue? key) := by
      intro hsome
      obtain ⟨value, hvalue⟩ := Option.isSome_iff_exists.mp hsome
      rw [hvalue]
      rfl
    rcases hkey with hreserved | hkey | hkey | hkey
    · rw [staticValue?_of_reserved hreserved, staticValue?_of_reserved hreserved]
    · exact hearlier (by simp [isSome_clockValue? t (.inl hkey)])
    · exact hearlier (by simp [isSome_counterValue? hcounts hkey])
    · exact hearlier (by simp [isSome_clockValue? t (.inr hkey)])
  · unfold staticValue?
    rw [h.statics key hkey]

end LookupTable

/-! ### Handlers -/

namespace Handler

/-- One handler, or two tables that answer every key alike. -/
inductive Alike : Handler → Handler → Prop
  | refl (h : Handler) : Alike h h
  | value {t t' : LookupTable} : (∀ key, t'.lookup? key = t.lookup? key) →
    Alike (value t) (value t')

theorem alike_substitute_value (r : TextRange) (t : Token) {table table' : LookupTable}
    (hlookup : ∀ key, table'.lookup? key = table.lookup? key) :
    Job.Alike (fun done done' => done.1 = done'.1 ∧ done.2.Alike done'.2)
      ((value table).substitute r t) ((value table').substitute r t) := by
  simp only [substitute]
  rw [hlookup t.key]
  split
  · exact (alike_edit _).bind fun _ _ he => alike_pure ⟨congrArg some he, .value hlookup⟩
  · exact alike_pure ⟨rfl, .value hlookup⟩

/-- Handlers that are alike make one edit and are alike afterwards. -/
theorem alike_substitute (r : TextRange) (t : Token) {h h' : Handler} (hh : h.Alike h') :
    Job.Alike (fun done done' => done.1 = done'.1 ∧ done.2.Alike done'.2)
      (h.substitute r t) (h'.substitute r t) := by
  cases hh with
  | refl =>
    refine (alike_substitute_self r t h).mono fun done done' hdone => ?_
    obtain ⟨rfl, -⟩ := hdone
    exact ⟨rfl, .refl _⟩
  | value hlookup => exact alike_substitute_value r t hlookup

end Handler

/-! ### Dispatch -/

/-- Handlers that are alike one by one do the same with a token. -/
theorem lockstep_alike : Lockstep (List.Forall₂ Handler.Alike) := by
  intro r t hs hs' h
  induction h with
  | nil => exact alike_pure ⟨rfl, rfl, .nil⟩
  | @cons h h' hs hs' hh hrest ih =>
    have hasked : Job.Alike (Dispatch.Alike (List.Forall₂ Handler.Alike))
        (do
          let d ← dispatch r t hs
          return { d with handlers := h :: d.handlers })
        (do
          let d ← dispatch r t hs'
          return { d with handlers := h' :: d.handlers }) :=
      ih.bind fun _ _ hd => alike_pure ⟨hd.accepted, hd.edit, .cons hh hd.handlers⟩
    have haccepted : Job.Alike (Dispatch.Alike (List.Forall₂ Handler.Alike))
        (do
          let done ← h.substitute r t
          return ⟨true, done.1, done.2 :: hs⟩)
        (do
          let done ← h'.substitute r t
          return ⟨true, done.1, done.2 :: hs'⟩) :=
      (Handler.alike_substitute r t hh).bind fun _ _ hd =>
        alike_pure ⟨rfl, hd.1, .cons hd.2 hrest⟩
    cases hh with
    | refl =>
      unfold dispatch
      split
      · exact haccepted
      · exact hasked
      · exact (alike_warn _ _ _).bind fun _ _ _ => hasked
    | @value table table' hlookup =>
      by_cases ht : t.isReserved = true
      · have hdeclined : ∀ table, (Handler.value table).judge t ≠ .accept := by
          intro table hjudge
          rw [Handler.judge, if_pos ht] at hjudge
          split at hjudge <;> cases hjudge
        obtain ⟨warning, hwarning, heq⟩ := dispatch_of_not_accept (hdeclined table) r hs
        obtain ⟨warning', hwarning', heq'⟩ := dispatch_of_not_accept (hdeclined table') r hs'
        rw [heq, heq']
        exact (hwarning.alike hwarning').bind fun _ _ _ => hasked
      · rw [dispatch, dispatch, Handler.judge, Handler.judge, if_neg ht, if_neg ht, hlookup t.key]
        cases table.lookup? t.key with
        | some text => exact haccepted
        | none => exact hasked

/-! ### Passes -/

/-- Passes for one pattern whose handlers are alike. -/
theorem alike_run (pattern : Text.Pattern) {hs hs' : List Handler}
    (h : List.Forall₂ Handler.Alike hs hs') :
    Job.Alike Eq (Pass.run ⟨pattern, hs⟩) (Pass.run ⟨pattern, hs'⟩) :=
  lockstep_alike.run pattern h

/-- A pass does the same in sessions that are alike. -/
theorem alike_run_self (pass : Pass) : Job.Alike Eq pass.run pass.run :=
  alike_run pass.pattern (List.forall₂_same.mpr fun h _ => .refl h)

/-! ### Inclusion -/

theorem alike_insertMainText (content : List Block) :
    Job.Alike Eq (insertMainText content) (insertMainText content) := by
  refine (alike_notify _).bind fun _ _ _ => (alike_run_self _).bind fun report report' hr => ?_
  subst hr
  split
  · exact alike_warn _ _ _
  · exact alike_pure rfl

theorem alike_pendingDirective? : Job.Alike Eq pendingDirective? pendingDirective? := by
  refine alike_get.bind fun s s' hs => ?_
  have hpending : pendingDirectives s'.document s'.journal =
      pendingDirectives s.document s.journal := by
    unfold pendingDirectives
    rw [hs.document]
    simp only [hs.journal.isMissing_eq]
  rw [hpending]
  exact (alike_lift _).bind fun _ _ h => alike_pure (congrArg List.head? h)

theorem alike_includeAll (w : Workspace) (limit left : Nat) :
    Job.Alike Eq (includeAll w limit left) (includeAll w limit left) := by
  induction left with
  | zero =>
    refine alike_pendingDirective?.bind fun pending? pending?' h => ?_
    subst h
    cases pending? with
    | none => exact alike_pure rfl
    | some pending => exact alike_throw _
  | succ left ih =>
    refine alike_pendingDirective?.bind fun pending? pending?' h => ?_
    subst h
    cases pending? with
    | none => exact alike_pure rfl
    | some pending =>
      refine (alike_run_self _).bind fun _ _ _ => ih.bind fun n n' hn => ?_
      exact alike_pure (congrArg (· + 1) hn)

theorem alike_includeDocuments (w : Workspace) (limit : Nat) (mainText? : Option (List Block)) :
    Job.Alike Eq (includeDocuments w limit mainText?) (includeDocuments w limit mainText?) := by
  have hrest : Job.Alike Eq
      (do
        Job.notify (.stage "Including documents")
        includeAll w limit limit : Job Nat)
      (do
        Job.notify (.stage "Including documents")
        includeAll w limit limit) :=
    (alike_notify _).bind fun _ _ _ => alike_includeAll w limit limit
  cases mainText? with
  | none =>
    have hnothing : Job.Alike Eq (pure () : Job Unit) (pure ()) := alike_pure rfl
    exact hnothing.bind fun _ _ _ => hrest
  | some content => exact (alike_insertMainText content).bind fun _ _ _ => hrest

end Compositor.Macro
