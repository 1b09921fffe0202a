/-
# A pass as a walk over its ranges

A pass finds its occurrences first, and then visits their ranges in order.
Between two visits it keeps the edits made so far, by which it follows the
ranges still to be visited. The invariant of the walk is `Pending`: each of
these ranges, followed, reads the occurrence found there, or it is gone and
the occurrence was blank; and they are still in order. One visit keeps it,
whatever the handlers do, so a walk of any length does.

Key definitions: `Walk`, `Walk.visit`, `Pass.progress`, `Pending`.
Key theorems: `run_eq_progress`, `visit_ends`, `walk_ends`,
`run_reads_every_occurrence`.
-/
import Compositor.Proofs.Document.Search
import Compositor.Proofs.Macro.Dispatch
import Compositor.Proofs.Macro.Tokens

namespace Compositor.Macro
open Text Job

/-! ### Walks -/

/-- Where a pass stands between two ranges: the number of the next one, the
edits made, the handlers as they are now, the report so far, and the tokens
handed to the handlers, each with the range where it stood then. -/
structure Walk where
  current : Nat := 1
  edits : List Edit := []
  handlers : List Handler
  report : PassReport
  handed : List (TextRange × Token) := []

namespace Walk

/-- The walk after a range that was skipped. -/
def skip (k : Walk) : Walk :=
  { k with current := k.current + 1, report := k.report.count none }

/-- Hands the token at a range to the handlers. -/
def hand (k : Walk) (r : TextRange) (t : Token) : Job Walk := do
  let d ← dispatch r t k.handlers
  if d.accepted || t.isReserved then pure ()
  else Job.warn .unresolvedMacro t.raw "no substitution is defined"
  return {
    current := k.current + 1
    edits := k.edits ++ d.edit?.toList
    handlers := d.handlers
    report := k.report.count d.edit?
    handed := k.handed ++ [(r, t)] }

/-- Visits the next range of `total`, given as it was found. -/
def visit (total : Nat) (k : Walk) (r : TextRange) : Job Walk := do
  Job.notify (.count k.current total)
  match r.follow k.edits with
  | none => return k.skip
  | some r =>
    match Token.parse? (← Job.rangeText r) with
    | none => return k.skip
    | some t => k.hand r t

end Walk

/-- The first `i` ranges of a pass. -/
def Pass.progress (pass : Pass) (i : Nat) : Job Walk := do
  let ranges := (← get).document.search pass.pattern
  (ranges.take i).foldlM (Walk.visit ranges.length)
    { handlers := pass.handlers, report := { scanned := ranges.length } }

theorem processAll_eq_foldlM (total : Nat) (k : Walk) (ranges : List TextRange) :
    processAll total k.current k.edits k.handlers k.report ranges =
      (do
        let k ← ranges.foldlM (Walk.visit total) k
        return k.report) := by
  induction ranges generalizing k with
  | nil => rw [processAll, List.foldlM_nil, pure_bind]
  | cons r rs ih =>
    rw [processAll, List.foldlM_cons, bind_assoc, Walk.visit, bind_assoc]
    congr 1
    funext _
    cases r.follow k.edits with
    | none => exact ih k.skip
    | some r =>
      simp only [processOne, bind_assoc]
      congr 1
      funext text
      cases Token.parse? text with
      | none =>
        simp only [pure_bind, Option.toList_none, List.append_nil]
        exact ih k.skip
      | some t =>
        simp only [Walk.hand, bind_assoc]
        congr 1
        funext d
        by_cases hanswered : (d.accepted || t.isReserved) = true
        · simp only [if_pos hanswered, pure_bind]
          exact ih ⟨k.current + 1, k.edits ++ d.edit?.toList, d.handlers, k.report.count d.edit?, _⟩
        · simp only [if_neg hanswered, bind_assoc, pure_bind]
          congr 1
          funext _
          exact ih ⟨k.current + 1, k.edits ++ d.edit?.toList, d.handlers, k.report.count d.edit?, _⟩

theorem run_eq_progress (pass : Pass) (s : Session) (i : Nat) :
    pass.run.run s = (do
      let k ← pass.progress i
      let k ← ((s.document.search pass.pattern).drop i).foldlM
        (Walk.visit (s.document.search pass.pattern).length) k
      return k.report : Job PassReport).run s := by
  have hsplit : ∀ (ranges : List TextRange) (total : Nat) (k : Walk),
      ranges.foldlM (Walk.visit total) k =
        (do
          let k ← (ranges.take i).foldlM (Walk.visit total) k
          (ranges.drop i).foldlM (Walk.visit total) k) := by
    intro ranges total k
    rw [← List.foldlM_append, List.take_append_drop]
  have hpass := processAll_eq_foldlM (s.document.search pass.pattern).length
    { handlers := pass.handlers, report := { scanned := (s.document.search pass.pattern).length } }
    (s.document.search pass.pattern)
  rw [hsplit, bind_assoc] at hpass
  have hrun := congrArg (fun job : Job PassReport => job.run s) hpass
  exact hrun

/-! ### Ranges still to be visited -/

/-- Each occurrence still to be visited has its range where the edits took
it, unless it was blank, and the ranges are in order. -/
structure Pending (d : Document) (edits : List Edit) (found : List (TextRange × List Char)) :
    Prop where
  numbered : d.Numbered
  reads : ∀ o ∈ found,
    match o.1.follow edits with
    | some r => d.Reads r o.2
    | none => allBlank o.2 = true
  apart : found.Pairwise fun o o' =>
    ∀ r r', o.1.follow edits = some r → o'.1.follow edits = some r' → r.Before r'

theorem pending_found {d : Document} (h : d.Numbered) (p : Pattern) :
    Pending d [] (d.found p) := by
  refine ⟨h, fun o ho => h.reads_of_mem_found ho, (h.pairwise_found p).imp ?_⟩
  intro o o' hbefore r r' hr hr'
  obtain rfl := Option.some.inj hr
  obtain rfl := Option.some.inj hr'
  exact hbefore

namespace Pending

variable {d d' : Document} {edits : List Edit} {o : TextRange × List Char}
  {rest : List (TextRange × List Char)}

theorem tail (h : Pending d edits (o :: rest)) : Pending d edits rest :=
  ⟨h.numbered, fun o' ho' => h.reads o' (List.mem_cons_of_mem o ho'),
    (List.pairwise_cons.mp h.apart).2⟩

theorem reads_head (h : Pending d edits (o :: rest)) {r : TextRange}
    (hr : o.1.follow edits = some r) : d.Reads r o.2 := by
  have hreads := h.reads o List.mem_cons_self
  rw [hr] at hreads
  exact hreads

/-- An edit at the first range keeps the invariant for the others. -/
theorem edited (h : Pending d edits (o :: rest)) {r : TextRange} {e : Edit}
    (hr : o.1.follow edits = some r) (hne : o.2 ≠ []) (hrange : e.range = r)
    (hedited : d.Edited d' e) : Pending d' (edits ++ [e]) rest := by
  subst hrange
  obtain ⟨s, -, hslice⟩ := h.reads_head hr
  have hlt := lt_of_slice? hslice hne
  obtain ⟨hfirst, hothers⟩ := List.pairwise_cons.mp h.apart
  have hreads : ∀ o' ∈ rest, ∀ q, o'.1.follow edits = some q →
      d.Reads q o'.2 ∧ e.range.Before q := by
    intro o' ho' q hq
    have hq' := h.reads o' (List.mem_cons_of_mem o ho')
    rw [hq] at hq'
    exact ⟨hq', hfirst o' ho' _ _ hr hq⟩
  refine ⟨hedited.numbered, fun o' ho' => ?_, ?_⟩
  · rw [TextRange.follow_append_singleton]
    cases hq : o'.1.follow edits with
    | none =>
      have hblank := h.reads o' (List.mem_cons_of_mem o ho')
      rw [hq] at hblank
      exact hblank
    | some q =>
      obtain ⟨hread, hbehind⟩ := hreads o' ho' q hq
      exact hedited.reads_rebase hlt hread hbehind
  · refine List.Pairwise.imp_of_mem ?_ hothers
    intro a b ha hb hab r₁ r₂ h₁ h₂
    rw [TextRange.follow_append_singleton] at h₁ h₂
    obtain ⟨q₁, hq₁, h₁⟩ := Option.bind_eq_some_iff.mp h₁
    obtain ⟨q₂, hq₂, h₂⟩ := Option.bind_eq_some_iff.mp h₂
    obtain ⟨hread₁, hbehind₁⟩ := hreads a ha q₁ hq₁
    obtain ⟨hread₂, hbehind₂⟩ := hreads b hb q₂ hq₂
    exact hedited.before_rebase h.numbered hlt hread₁ hread₂ hbehind₁ hbehind₂
      (hab q₁ q₂ hq₁ hq₂) h₁ h₂

theorem doneAt (h : Pending d edits (o :: rest)) {r : TextRange} {edit? : Option Edit}
    (hr : o.1.follow edits = some r) (hne : o.2 ≠ []) (hdone : d.DoneAt r d' edit?) :
    Pending d' (edits ++ edit?.toList) rest := by
  cases edit? with
  | none =>
    obtain rfl : d' = d := hdone
    rw [Option.toList_none, List.append_nil]
    exact h.tail
  | some e => exact h.edited hr hne hdone.1 hdone.2

end Pending

/-! ### One visit -/

theorem scanned_count (report : PassReport) (edit? : Option Edit) :
    (report.count edit?).scanned = report.scanned := by
  unfold PassReport.count
  split <;> rfl

theorem counted_count (report : PassReport) (edit? : Option Edit) :
    (report.count edit?).substituted + (report.count edit?).skipped
      = report.substituted + report.skipped + 1 := by
  unfold PassReport.count
  split
  · show report.substituted + 1 + report.skipped = _
    omega
  · rfl

/-- Does the occurrence read as a token with its text? -/
def ReadsAsToken (found : List Char) : Prop :=
  ∃ t, Token.parse? (String.ofList found) = some t ∧ t.chars = found

/-- The walk after some more occurrences: each was counted once, and if they
all read as tokens, these were handed over, in order. -/
structure Walk.After (k : Walk) (found : List (TextRange × List Char)) (k' : Walk) : Prop where
  scanned : k'.report.scanned = k.report.scanned
  counted : k'.report.substituted + k'.report.skipped
    = k.report.substituted + k.report.skipped + found.length
  workspaces : ∀ w, Handler.inclusion w ∈ k'.handlers → Handler.inclusion w ∈ k.handlers
  handed : (∀ o ∈ found, ReadsAsToken o.2) →
    k'.handed.map (fun h => some h.2) =
      k.handed.map (fun h => some h.2) ++ found.map fun o => Token.parse? (String.ofList o.2)

theorem Walk.after_nil (k : Walk) : k.After [] k :=
  ⟨rfl, rfl, fun _ hw => hw, fun _ => (List.append_nil _).symm⟩

theorem Walk.After.append {k k' k'' : Walk} {found found' : List (TextRange × List Char)}
    (h : k.After found k') (h' : k'.After found' k'') : k.After (found ++ found') k'' := by
  refine ⟨h'.scanned.trans h.scanned, ?_, fun w hw => h.workspaces w (h'.workspaces w hw), ?_⟩
  · rw [h'.counted, h.counted, List.length_append, Nat.add_assoc]
  · intro htokens
    rw [h'.handed fun o ho => htokens o (List.mem_append_right _ ho),
      h.handed fun o ho => htokens o (List.mem_append_left _ ho), List.map_append,
      List.append_assoc]

theorem Walk.after_skip (k : Walk) {o : TextRange × List Char} (h : ¬ ReadsAsToken o.2) :
    k.After [o] k.skip := by
  refine ⟨scanned_count _ _, counted_count _ _, fun _ hw => hw, fun htokens => ?_⟩
  exact absurd (htokens o (List.mem_singleton_self o)) h

theorem not_readsAsToken_of_allBlank {x : List Char} (h : allBlank x = true) :
    ¬ ReadsAsToken x := by
  rintro ⟨t, -, rfl⟩
  rw [t.not_allBlank_chars] at h
  cases h

theorem visit_ends {s : Session} {k : Walk} {o : TextRange × List Char}
    {rest : List (TextRange × List Char)} (h : Pending s.document k.edits (o :: rest))
    (total : Nat) :
    (k.visit total o.1).Ends s
      (fun k' s' => Pending s'.document k'.edits rest ∧ k.After [o] k')
      (CannotLoad k.handlers) := by
  refine ends_bind (ends_notify ?_)
  cases hr : o.1.follow k.edits with
  | none =>
    have hblank := h.reads o List.mem_cons_self
    rw [hr] at hblank
    exact ends_pure ⟨h.tail, k.after_skip (not_readsAsToken_of_allBlank hblank)⟩
  | some r =>
    have hread := h.reads_head hr
    refine ends_bind (ends_rangeText hread ?_)
    cases hparse : Token.parse? (String.ofList o.2) with
    | none =>
      refine ends_pure ⟨h.tail, k.after_skip ?_⟩
      rintro ⟨t, ht, -⟩
      rw [hparse] at ht
      cases ht
    | some t =>
      have hne : o.2 ≠ [] := by
        intro he
        rw [he] at hparse
        cases hparse
      have hdispatch := dispatch_ends
        (s := { s with notices := s.notices ++ [.count k.current total] }) h.numbered hread t
        k.handlers
      refine ends_bind (hdispatch.mono (fun d s' hdone => ?_) fun _ => id)
      dsimp only
      have hafter : k.After [o] {
          current := k.current + 1
          edits := k.edits ++ d.edit?.toList
          handlers := d.handlers
          report := k.report.count d.edit?
          handed := k.handed ++ [(r, t)] } := by
        refine ⟨scanned_count _ _, counted_count _ _, hdone.2, fun _ => ?_⟩
        rw [List.map_append, List.map_cons, List.map_nil, List.map_cons, List.map_nil, hparse]
      have hpending := h.doneAt hr hne hdone.1
      by_cases hanswered : (d.accepted || t.isReserved) = true
      · rw [if_pos hanswered]
        exact ends_bind (ends_pure (ends_pure ⟨hpending, hafter⟩))
      · rw [if_neg hanswered]
        exact ends_bind (ends_warn (ends_pure ⟨hpending, hafter⟩))

/-! ### All visits -/

theorem walk_ends {s : Session} {k : Walk} {found rest : List (TextRange × List Char)}
    (h : Pending s.document k.edits (found ++ rest)) (total : Nat) :
    ((found.map Prod.fst).foldlM (Walk.visit total) k).Ends s
      (fun k' s' => Pending s'.document k'.edits rest ∧ k.After found k')
      (CannotLoad k.handlers) := by
  induction found generalizing s k with
  | nil => exact ends_pure ⟨h, k.after_nil⟩
  | cons o found ih =>
    rw [List.map_cons, List.foldlM_cons]
    refine ends_bind ((visit_ends h total).mono (fun k' s' hone => ?_) fun _ => id)
    obtain ⟨hpending, hafter⟩ := hone
    refine (ih hpending).mono (fun k'' s'' hall => ?_) fun fault hf => hf.mono hafter.workspaces
    exact ⟨hall.1, hafter.append hall.2⟩

/-- The walk before its first visit. -/
def Pass.start (pass : Pass) (total : Nat) : Walk :=
  { handlers := pass.handlers, report := { scanned := total } }

theorem progress_ends (pass : Pass) {s : Session} (h : s.document.Numbered) (i : Nat) :
    (pass.progress i).Ends s
      (fun k s' => Pending s'.document k.edits ((s.document.found pass.pattern).drop i) ∧
        (pass.start (s.document.found pass.pattern).length).After
          ((s.document.found pass.pattern).take i) k)
      (CannotLoad pass.handlers) := by
  refine ends_bind (ends_get ?_)
  have hlength : (s.document.search pass.pattern).length
      = (s.document.found pass.pattern).length := by
    rw [← Document.map_fst_found, List.length_map]
  dsimp only
  rw [hlength, ← Document.map_fst_found, ← List.map_take]
  refine walk_ends (k := pass.start (s.document.found pass.pattern).length) ?_ _
  rw [List.take_append_drop]
  exact pending_found h pass.pattern

theorem readsAsToken_of_mem_found {p : Pattern} (hp : FindsTokens p) {d : Document}
    {o : TextRange × List Char} (ho : o ∈ d.found p) : ReadsAsToken o.2 := by
  obtain ⟨s, hs⟩ := exists_of_mem_found ho
  exact hp s o.2 hs

/-- **A pass never loses its place.** It fails only where a file that it
includes cannot be loaded. When it comes to an occurrence, the range it has
followed there reads the occurrence as it was found, and a range is gone only
if its occurrence was blank. Every occurrence is counted once, as substituted
or as skipped. If the pattern is one of those for tokens, each occurrence is
handed to the handlers once, in document order, as the token it reads as. -/
theorem run_reads_every_occurrence (pass : Pass) (s : Session) (h : s.document.Numbered) :
    (s.document.found pass.pattern).map Prod.fst = s.document.search pass.pattern ∧
    (∀ i, pass.run.run s = (do
      let k ← pass.progress i
      let k ← ((s.document.search pass.pattern).drop i).foldlM
        (Walk.visit (s.document.search pass.pattern).length) k
      return k.report : Job PassReport).run s) ∧
    pass.run.Ends s
      (fun report _ => report.scanned = (s.document.found pass.pattern).length ∧
        report.scanned = report.substituted + report.skipped)
      (CannotLoad pass.handlers) ∧
    (∀ i r x, (s.document.found pass.pattern)[i]? = some (r, x) →
      s.document.rangeText r = .ok (String.ofList x) ∧
      (pass.progress i).Ends s
        (fun k s' =>
          match r.follow k.edits with
          | some r' => s'.document.rangeText r' = .ok (String.ofList x)
          | none => allBlank x = true)
        (CannotLoad pass.handlers)) ∧
    (pass.pattern = macroPattern ∨ pass.pattern = includePattern ∨ pass.pattern = mainTextPattern →
      ∀ i, (pass.progress i).Ends s
        (fun k _ => k.handed.map (fun h => some h.2) =
          ((s.document.found pass.pattern).take i).map fun o => Token.parse? (String.ofList o.2))
        (CannotLoad pass.handlers)) := by
  have hsearch := Document.map_fst_found pass.pattern s.document
  refine ⟨hsearch, run_eq_progress pass s, ?_, ?_, ?_⟩
  · refine Ends.congr (run_eq_progress pass s (s.document.found pass.pattern).length) ?_
    refine ends_bind ((progress_ends pass h _).mono (fun k s' hk => ?_) fun _ => id)
    have hafter := hk.2
    rw [← hsearch, ← List.map_drop, List.drop_length, List.map_nil, List.foldlM_nil]
    rw [List.take_length] at hafter
    refine ends_bind (ends_pure (ends_pure ⟨hafter.scanned, ?_⟩))
    rw [hafter.scanned, hafter.counted]
    exact (Nat.zero_add _).symm
  · intro i r x hi
    have hmem := List.mem_of_getElem? hi
    refine ⟨Document.rangeText_of_reads (h.reads_of_mem_found hmem), ?_⟩
    refine (progress_ends pass h i).mono (fun k s' hk => ?_) fun _ => id
    have hnext : (r, x) ∈ (s.document.found pass.pattern).drop i := by
      refine List.mem_of_getElem? (i := 0) ?_
      rw [List.getElem?_drop]
      exact hi
    have hreads := hk.1.reads (r, x) hnext
    cases hr : r.follow k.edits with
    | none => rw [hr] at hreads; exact hreads
    | some r' => rw [hr] at hreads; exact Document.rangeText_of_reads hreads
  · intro hpattern i
    have htokens : FindsTokens pass.pattern := by
      rcases hpattern with hp | hp | hp
      · rw [hp]; exact findsTokens_macroPattern
      · rw [hp]; exact findsTokens_includePattern
      · rw [hp]; exact findsTokens_mainTextPattern
    refine (progress_ends pass h i).mono (fun k s' hk => ?_) fun _ => id
    exact hk.2.handed fun o ho => readsAsToken_of_mem_found htokens (List.mem_of_mem_take ho)

/-- That the ids are distinct is not enough: the paragraph split off gets the id
of the one before it, which is where the second token is then looked for. -/
theorem run_loses_token_overtaken :
    (Document.overtaken "A %TOC% B %A%").ids.Nodup ∧
    (Pass.run ⟨macroPattern, [.contents "Contents"]⟩).Ends
      { document := .overtaken "A %TOC% B %A%" } (fun _ _ => False)
      (fun e => e = .stale ⟨⟨1, none, 3, 6⟩⟩) :=
  ⟨Document.nodup_ids_overtaken _, by decide +kernel⟩

/-- A document with two tokens in one paragraph. -/
def twoTokens : Session := { document := .ofBlocks "Report" [.paragraph (.plain "%TOC% %A%")] }

/-- The first token becomes a table of contents, which splits the paragraph;
the second one is found behind it. -/
theorem run_reads_token_after_split :
    twoTokens.document.Numbered ∧
    (twoTokens.document.found macroPattern)[1]? = some (⟨1, none, 6, 9⟩, "%A%".toList) ∧
    (Pass.progress ⟨macroPattern, [.contents "Contents"]⟩ 1).Ends twoTokens
      (fun k s' =>
        match (⟨1, none, 6, 9⟩ : TextRange).follow k.edits with
        | some r' => s'.document.rangeText r' = .ok (String.ofList "%A%".toList)
        | none => allBlank "%A%".toList = true)
      (CannotLoad [.contents "Contents"]) := by
  have hnumbered : twoTokens.document.Numbered :=
    Document.numbered_ofBlocks "Report" [.paragraph (.plain "%TOC% %A%")]
  have hfound : (twoTokens.document.found macroPattern)[1]? =
      some (⟨1, none, 6, 9⟩, "%A%".toList) := by decide +kernel
  have hrun := run_reads_every_occurrence ⟨macroPattern, [.contents "Contents"]⟩ twoTokens hnumbered
  exact ⟨hnumbered, hfound, (hrun.2.2.2.1 1 _ _ hfound).2⟩

end Compositor.Macro
