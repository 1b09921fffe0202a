/-
# One occurrence answered

The pass for values and tables of contents hands each token to two handlers.
What they do with it is its answer: it stays, its range is replaced by a
value, or a table of contents is put in its place. What they warn of depends
on the token and on the table only.

Key definitions: `Answered`, `Walk.Replies`, `Walk.Answers`, `Walk.Rewrites`.
Key theorems: `hand_replies_of_reserved`, `hand_replies_of_free`,
`visit_replies`.
-/
import Compositor.Composer
import Compositor.Proofs.Document.Identity
import Compositor.Proofs.Macro.Rewriting
import Compositor.Proofs.Macro.Walk

namespace Compositor.Macro
open Text Job

/-- What the answer to an occurrence at a range does: nothing, an edit that
puts in a value, or an edit that puts in a table of contents, after which all
of them are made anew. -/
def Answered (title : String) (r : TextRange) (d d' : Document) : Answer → List Edit → Prop
  | .stays, edits => edits = [] ∧ d' = d
  | .value text, edits => ∃ e, edits = [e] ∧ d.replaceText r text = .ok (d', e)
  | .contents, edits => ∃ e d₁, edits = [e] ∧
    d.splice r [Handler.emptyContents title] = .ok (d₁, e) ∧ d' = d₁.refreshContents

theorem Answered.continues {title : String} {r : TextRange} {d d' : Document} {answer : Answer}
    {edits : List Edit} (h : Answered title r d d' answer edits) : d.Continues d' := by
  cases answer with
  | stays =>
    obtain ⟨-, rfl⟩ := h
    exact .refl d'
  | value text =>
    obtain ⟨e, -, hreplace⟩ := h
    exact (Document.Step.replaceText hreplace).continues
  | contents =>
    obtain ⟨e, d₁, -, hsplice, rfl⟩ := h
    exact (Document.Step.splice hsplice).continues.trans Document.Step.refreshContents.continues

/-- What a walk did with one occurrence at a range: it was answered by some
edits, and warned of. -/
structure Walk.Replies (table : LookupTable) (title : String) (r : TextRange) (x : List Char)
    (s s' : Session) (k k' : Walk) (edits : List Edit) : Prop where
  numbered : s'.document.Numbered
  handlers : k'.handlers = k.handlers
  journal : s'.journal = s.journal.note (table.warnings x)
  appended : k'.edits = k.edits ++ edits
  answered : Answered title r s.document s'.document (table.answer x) edits

theorem ReadsAsToken.ne_nil {x : List Char} (h : ReadsAsToken x) : x ≠ [] := by
  obtain ⟨t, -, rfl⟩ := h
  exact List.cons_ne_nil _ _

theorem parse?_contentsToken :
    Token.parse? (String.ofList contentsToken.chars) = some contentsToken := by decide +kernel

theorem eq_contentsToken_iff {t : Token} : t.isJust contentsName = true ↔ t = contentsToken := by
  obtain ⟨name, argument⟩ := t
  simp [Token.isJust, contentsToken]

section Answer

variable {table : LookupTable} {t : Token}

theorem answer_contents : table.answer contentsToken.chars = .contents := if_pos rfl

theorem answer_eq_contents {x : List Char} (h : table.answer x = .contents) :
    x = contentsToken.chars := by
  by_contra hne
  rw [LookupTable.answer, if_neg hne] at h
  split at h
  · cases h
  · split at h
    · cases h
    · split at h <;> cases h

theorem chars_ne_contentsToken (hparse : Token.parse? (String.ofList t.chars) = some t)
    (hne : t ≠ contentsToken) : t.chars ≠ contentsToken.chars := by
  intro h
  rw [h, parse?_contentsToken] at hparse
  exact hne (Option.some.inj hparse).symm

theorem answer_of_reserved (hparse : Token.parse? (String.ofList t.chars) = some t)
    (hne : t ≠ contentsToken) (h : t.isReserved = true) : table.answer t.chars = .stays := by
  rw [LookupTable.answer, if_neg (chars_ne_contentsToken hparse hne), hparse]
  exact if_pos h

/-- A token that is not reserved is answered by the table alone. -/
theorem answer_of_free (hparse : Token.parse? (String.ofList t.chars) = some t)
    (h : t.isReserved = false) :
    table.answer t.chars = ((table.lookup? t.key).map Answer.value).getD .stays := by
  have hne : t ≠ contentsToken := by
    rintro rfl
    cases h
  rw [LookupTable.answer, if_neg (chars_ne_contentsToken hparse hne), hparse]
  simp only [h]
  cases table.lookup? t.key with
  | some text => rfl
  | none => rfl

end Answer

/-! ### Dispatch -/

section Dispatch

variable {s : Session} {r : TextRange} {t : Token} {title : String}

theorem dispatch_contents_of_ne (hne : t ≠ contentsToken) {post : Dispatch → Session → Prop}
    {fault : Fault → Prop} (h : post ⟨false, none, [.contents title]⟩ s) :
    (dispatch r t [.contents title]).Ends s post fault := by
  have hjust : t.isJust contentsName = false :=
    Bool.eq_false_iff.mpr fun hjust => hne (eq_contentsToken_iff.mp hjust)
  unfold dispatch Handler.judge
  rw [hjust]
  exact ends_bind (ends_pure (ends_pure h))

theorem dispatch_contents (hd : s.document.Numbered)
    (hr : s.document.Reads r contentsToken.chars) {post : Dispatch → Session → Prop}
    {fault : Fault → Prop}
    (h : ∀ d e, e.range = r → s.document.Edited d e →
      s.document.splice r [Handler.emptyContents title] = .ok (d, e) →
      post ⟨true, some e, [.contents title]⟩ { s with document := d.refreshContents }) :
    (dispatch r contentsToken [.contents title]).Ends s post fault := by
  obtain ⟨d, e, hsplice, hrange, hedited⟩ := hd.edited_splice hr [Handler.emptyContents title]
  refine ends_bind (ends_bind (ends_edit hsplice (ends_bind (ends_modifyDocument (ends_pure ?_)))))
  exact ends_pure (h d e hrange hedited hsplice)

/-- A value declines a reserved token, after a warning if the user gave one
under its name. -/
theorem dispatch_reserved {table : LookupTable}
    (hparse : Token.parse? (String.ofList t.chars) = some t) (h : t.isReserved = true)
    (hs : List Handler) {post : Dispatch → Session → Prop} {fault : Fault → Prop}
    (hrest : (dispatch r t hs).Ends { s with journal := s.journal.note (table.warnings t.chars) }
      (fun d s' => post { d with handlers := .value table :: d.handlers } s') fault) :
    (dispatch r t (.value table :: hs)).Ends s post fault := by
  have hjudge : (Handler.value table).judge t =
      if table.overrides t then
        .refuse .forbiddenOverride ("'" ++ t.key ++ "' is reserved and cannot be redefined")
      else .decline := if_pos h
  have hwarnings : table.warnings t.chars =
      if table.overrides t then
        [⟨.forbiddenOverride, t.raw, "'" ++ t.key ++ "' is reserved and cannot be redefined"⟩]
      else [] := by
    rw [LookupTable.warnings, hparse]
    exact if_pos h
  unfold dispatch
  rw [hwarnings] at hrest
  rw [hjudge]
  by_cases hoverrides : table.overrides t = true
  · rw [if_pos hoverrides] at hrest ⊢
    exact ends_bind (ends_warn (ends_bind (hrest.mono (fun _ _ h => ends_pure h) fun _ => id)))
  · rw [if_neg hoverrides] at hrest ⊢
    rw [Journal.note_nil] at hrest
    exact ends_bind (hrest.mono (fun _ _ h => ends_pure h) fun _ => id)

variable {k : Walk} {table : LookupTable}

theorem hand_replies_of_reserved (hd : s.document.Numbered)
    (hparse : Token.parse? (String.ofList t.chars) = some t) (h : t.isReserved = true)
    (hr : s.document.Reads r t.chars) (hk : k.handlers = (valuePass table title).handlers) :
    (k.hand r t).Ends s (fun k' s' => ∃ edits, Walk.Replies table title r t.chars s s' k k' edits)
      (fun _ => False) := by
  unfold Walk.hand
  rw [hk]
  refine ends_bind (dispatch_reserved hparse h _ ?_)
  by_cases hcontents : t = contentsToken
  · subst hcontents
    refine dispatch_contents (s := { s with journal := s.journal.note _ }) hd hr
      fun d e hrange hedited hsplice => ?_
    refine ends_bind (ends_pure (ends_pure ?_))
    refine ⟨[e], hedited.numbered.refreshContents, hk.symm, rfl, rfl, ?_⟩
    rw [answer_contents]
    exact ⟨e, d, rfl, hsplice, rfl⟩
  · refine dispatch_contents_of_ne hcontents ?_
    rw [h, Bool.or_true]
    refine ends_bind (ends_pure (ends_pure ?_))
    refine ⟨[], hd, hk.symm, rfl, rfl, ?_⟩
    rw [answer_of_reserved hparse hcontents h]
    exact ⟨rfl, rfl⟩

theorem hand_replies_of_free (hd : s.document.Numbered)
    (hparse : Token.parse? (String.ofList t.chars) = some t) (h : t.isReserved = false)
    (hr : s.document.Reads r t.chars) (hk : k.handlers = (valuePass table title).handlers) :
    (k.hand r t).Ends s (fun k' s' => ∃ edits, Walk.Replies table title r t.chars s s' k k' edits)
      (fun _ => False) := by
  have hne : t ≠ contentsToken := by
    rintro rfl
    cases h
  have hanswer : table.answer t.chars =
      ((table.lookup? t.key).map Answer.value).getD .stays := answer_of_free hparse h
  have hwarnings : table.warnings t.chars =
      if (table.lookup? t.key).isSome then []
      else [⟨.unresolvedMacro, t.raw, "no substitution is defined"⟩] := by
    rw [LookupTable.warnings, hparse]
    simp only [h]
    rfl
  have hjudge : (Handler.value table).judge t = Handler.verdict (table.lookup? t.key).isSome := by
    rw [Handler.judge, h]
    rfl
  unfold Walk.hand
  rw [hk]
  unfold valuePass dispatch
  rw [hjudge]
  cases hlookup : table.lookup? t.key with
  | some text =>
    rw [hlookup] at hanswer hwarnings
    obtain ⟨d, e, hreplace, hrange, hedited⟩ := hd.edited_replaceText hr text
    have hsubstitute : ((Handler.value table).substitute r t).Ends s
        (fun done s' => done = (some e, .value table) ∧ s' = { s with document := d })
        (fun _ => False) := by
      rw [Handler.substitute, hlookup]
      exact ends_bind (ends_edit hreplace (ends_pure ⟨rfl, rfl⟩))
    refine ends_bind (ends_bind (hsubstitute.mono (fun done s' h => ?_) fun _ => id))
    obtain ⟨rfl, rfl⟩ := h
    refine ends_pure (ends_bind (ends_pure (ends_pure ?_)))
    refine ⟨[e], hedited.numbered, hk.symm, ?_, rfl, ?_⟩
    · rw [hwarnings]
      exact s.journal.note_nil.symm
    · rw [hanswer]
      exact ⟨e, rfl, hreplace⟩
  | none =>
    rw [hlookup] at hanswer hwarnings
    refine ends_bind (ends_bind (dispatch_contents_of_ne hne (ends_pure ?_)))
    rw [h]
    refine ends_bind (ends_warn (ends_pure ⟨[], hd, hk.symm, ?_, rfl, ?_⟩))
    · rw [hwarnings]
      rfl
    · rw [hanswer]
      exact ⟨rfl, rfl⟩

/-- A visit to a range that was followed there answers its occurrence. -/
theorem visit_replies {x : List Char} {found : TextRange} (hd : s.document.Numbered)
    (hx : ReadsAsToken x) (hr : s.document.Reads r x) (hfollow : found.follow k.edits = some r)
    (hk : k.handlers = (valuePass table title).handlers) (total : Nat) :
    (k.visit total found).Ends s
      (fun k' s' => ∃ edits, Walk.Replies table title r x s s' k k' edits)
      (fun _ => False) := by
  obtain ⟨t, hparse, rfl⟩ := hx
  refine ends_bind (ends_notify ?_)
  rw [hfollow]
  refine ends_bind (ends_rangeText hr ?_)
  rw [hparse]
  generalize hs : ({ s with notices := s.notices ++ [.count k.current total] } : Session) = s₁
  have hdocument : s₁.document = s.document := hs ▸ rfl
  have hjournal : s₁.journal = s.journal := hs ▸ rfl
  rw [← hdocument] at hd hr
  have hhand : (k.hand r t).Ends s₁
      (fun k' s' => ∃ edits, Walk.Replies table title r t.chars s₁ s' k k' edits)
      (fun _ => False) := by
    cases hreserved : t.isReserved with
    | true => exact hand_replies_of_reserved hd hparse hreserved hr hk
    | false => exact hand_replies_of_free hd hparse hreserved hr hk
  refine hhand.mono (fun k' s' h => ?_) fun _ => id
  obtain ⟨edits, h⟩ := h
  refine ⟨edits, h.numbered, h.handlers, ?_, h.appended, ?_⟩
  · rw [← hjournal]
    exact h.journal
  · rw [← hdocument]
    exact h.answered

end Dispatch

/-! ### What a visit does to the walk -/

/-- What the walk did besides: the handlers are as they were, and the warnings
about the occurrences visited were noted. -/
structure Walk.Answers (table : LookupTable) (found : List (List Char)) (s s' : Session)
    (k k' : Walk) : Prop where
  numbered : s'.document.Numbered
  handlers : k'.handlers = k.handlers
  journal : s'.journal = s.journal.note (found.flatMap table.warnings)
  freshId_le : freshId s.document.nextId ≤ freshId s'.document.nextId

namespace Walk.Answers

variable {table : LookupTable} {found found' : List (List Char)} {s s' s'' : Session}
  {k k' k'' : Walk}

theorem nil (hd : s.document.Numbered) : Walk.Answers table [] s s k k :=
  ⟨hd, rfl, s.journal.note_nil.symm, Nat.le_refl _⟩

theorem append (h : Walk.Answers table found s s' k k')
    (h' : Walk.Answers table found' s' s'' k' k'') :
    Walk.Answers table (found ++ found') s s'' k k'' := by
  refine ⟨h'.numbered, h'.handlers.trans h.handlers, ?_, Nat.le_trans h.freshId_le h'.freshId_le⟩
  rw [h'.journal, h.journal, Journal.note_note, List.flatMap_append]

end Walk.Answers

theorem Walk.Replies.answers {table : LookupTable} {title : String} {r : TextRange}
    {x : List Char} {s s' : Session} {k k' : Walk} {edits : List Edit}
    (h : Walk.Replies table title r x s s' k k' edits) : Walk.Answers table [x] s s' k k' := by
  refine ⟨h.numbered, h.handlers, ?_, freshId_mono h.answered.continues.nextId_le⟩
  rw [List.flatMap_singleton]
  exact h.journal

/-- What the walk did through a block: between the blocks around it stand
blocks with the given images. Ranges in other blocks are followed to where
they were before. -/
structure Walk.Rewrites (table : LookupTable) (before after : List Block) (id? : Option Nat)
    (found : List (List Char)) (images : List Image) (s s' : Session) (k k' : Walk) : Prop
    extends Walk.Answers table found s s' k k' where
  blocks : ∃ bs, s'.document.bare = before ++ bs ++ after ∧ List.Forall₂ Image.Matches images bs
  elsewhere : ∀ r r' : TextRange, r.follow k.edits = some r' → id? ≠ some r'.block →
    r'.block < freshId s.document.nextId → r.follow k'.edits = some r'

/-- A walk on behind one occurrence in a paragraph. What is walked on through
is the same paragraph, or one that was split off. -/
theorem Walk.Rewrites.behind {table : LookupTable} {before front after : List Block} {id id' : Nat}
    {x : List Char} {found : List (List Char)} {images images' : List Image} {s s' s'' : Session}
    {k k' k'' : Walk} (hk : Walk.Answers table [x] s s' k k')
    (helsewhere : ∀ r r' : TextRange, r.follow k.edits = some r' → r'.block ≠ id →
      r.follow k'.edits = some r')
    (hid : id' = id ∨ freshId s.document.nextId ≤ id')
    (hfront : List.Forall₂ Image.Matches images front)
    (hrest : Walk.Rewrites table (before ++ front) after (some id') found images' s' s'' k' k'') :
    Walk.Rewrites table before after (some id) (x :: found) (images ++ images') s s'' k k'' := by
  obtain ⟨hk', ⟨bs, hbs, hmatches⟩, helsewhere'⟩ := hrest
  refine ⟨hk.append hk', ⟨front ++ bs, ?_, List.rel_append hfront hmatches⟩,
    fun r r' hr hne hlt => ?_⟩
  · rw [hbs]
    simp only [List.append_assoc]
  · have hblock : r'.block ≠ id := fun he => hne (congrArg some he.symm)
    refine helsewhere' r r' (helsewhere r r' hr hblock) (fun he => ?_)
      (Nat.lt_of_lt_of_le hlt hk.freshId_le)
    have := Option.some.inj he
    omega

end Compositor.Macro
