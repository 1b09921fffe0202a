/-
# Lines that are continued

A property is written as pieces, one after the other: an escape is a piece, and
so is a character that stands for itself. Between pieces, and before the first
and behind the last one, the line can be wrapped: it ends in a backslash there,
and the next line goes on behind any spaces and tabs. A wrapped line is read as
its pieces: what stands before a wrap ends in an even number of backslashes, so
the one of the wrap is odd, and no piece starts with a blank that would be
skipped with the indent.

Key definitions: `Piece`, `Wrapped`, `LineEnd`, `joinText`, `IsRemarkLine`.
Key theorems: `joinText_wrapped`, `logicalLines_wrapped`, `logicalLines_remark`.
-/
import Compositor.Macro.Properties
import Compositor.Proofs.Text.Lines
import Compositor.Proofs.Text.Trimming

namespace Compositor.Macro
open Text

/-! ### Backslashes at the end of a line -/

theorem continues_append_backslash (s : List Char) :
    continues (s ++ ['\\']) = !continues s := by
  have htake : ((s ++ ['\\']).reverse.takeWhile (· = '\\')).length =
      (s.reverse.takeWhile (· = '\\')).length + 1 := by
    rw [List.reverse_append, List.reverse_singleton, List.singleton_append,
      List.takeWhile_cons_of_pos (by decide), List.length_cons]
  rw [continues, continues, htake, ← decide_not, decide_eq_decide]
  omega

theorem continues_append_of_ne {c : Char} (hc : c ≠ '\\') (s : List Char) :
    continues (s ++ [c]) = false := by
  have htake : (s ++ [c]).reverse.takeWhile (· = '\\') = [] := by
    rw [List.reverse_append, List.reverse_singleton, List.singleton_append]
    exact List.takeWhile_cons_of_neg (by simpa using hc)
  rw [continues, htake]
  rfl

theorem joinContinued_of_not_continues {line : List Char} (h : continues line = false)
    (ls : List (List Char)) : joinContinued line ls = (line, ls) := by
  cases ls with
  | nil => rw [joinContinued, h, if_neg Bool.false_ne_true]
  | cons next rest => rw [joinContinued, h, if_neg Bool.false_ne_true]

/-- A line that ends in one more backslash than `s` goes on in the next line. -/
theorem joinContinued_backslash {s : List Char} (h : continues s = false)
    (ls : List (List Char)) :
    joinContinued (s ++ ['\\']) ls = joinContinued (s ++ skipBlanks (ls.headD [])) ls.tail := by
  have hcontinues : continues (s ++ ['\\']) = true := by
    rw [continues_append_backslash, h]
    rfl
  cases ls with
  | nil =>
    have hnil : s ++ skipBlanks (([] : List (List Char)).headD []) = s := List.append_nil s
    rw [hnil, List.tail_nil, joinContinued_of_not_continues h, joinContinued, if_pos hcontinues,
      List.dropLast_concat]
  | cons next rest =>
    rw [joinContinued, if_pos hcontinues, List.dropLast_concat]
    rfl

/-! ### Pieces and wraps -/

/-- A piece of a property line: it keeps to one line, does not start with what
could be skipped or taken for a comment, and leaves no backslash open. -/
structure Piece (p : List Char) : Prop where
  head : ∃ c s, p = c :: s ∧ isBlank c = false ∧ c ≠ '#' ∧ c ≠ '!'
  no_feed : '\n' ∉ p
  no_return : p.getLast? ≠ some '\r'
  closed : ∀ s, continues s = false → continues (s ++ p) = false

/-- The text is the pieces in their order, with wraps around them. -/
inductive Wrapped : List (List Char) → List Char → Prop
  | nil : Wrapped [] []
  | piece {p : List Char} {ps : List (List Char)} {s : List Char} :
      Wrapped ps s → Wrapped (p :: ps) (p ++ s)
  | wrap {indent : List Char} {ps : List (List Char)} {s : List Char} :
      (∀ c ∈ indent, c = ' ' ∨ c = '\t') → Wrapped ps s →
      Wrapped ps ('\\' :: '\n' :: (indent ++ s))

/-- The pieces without any wrap. -/
theorem wrapped_flatten (ps : List (List Char)) : Wrapped ps ps.flatten := by
  induction ps with
  | nil => exact .nil
  | cons p ps ih => exact .piece ih

/-- What can follow a line, with the lines in it: nothing, or a line feed and a
text. -/
inductive LineEnd : List Char → List (List Char) → Prop
  | last : LineEnd [] []
  | feed (s : List Char) : LineEnd ('\n' :: s) (lines s)

/-- The line that has been read up to `done` and goes on with a text, and the
lines after it. -/
def joinText (done s : List Char) : List Char × List (List Char) :=
  joinContinued (done ++ (lines s).headD []) (lines s).tail

variable {done s after : List Char} {rest : List (List Char)}

theorem joinText_end (h : continues done = false) (hend : LineEnd after rest) :
    joinText done after = (done, rest) := by
  cases hend with
  | last =>
    have hnil : joinText done [] = joinContinued (done ++ []) [] := rfl
    rw [hnil, List.append_nil, joinContinued_of_not_continues h]
  | feed s =>
    have hlines : lines ('\n' :: s) = [] :: lines s := lines_feed_cons s
    rw [joinText, hlines, List.headD_cons, List.tail_cons, List.append_nil,
      joinContinued_of_not_continues h]

theorem joinText_piece {p : List Char} (hp : Piece p) (done s : List Char) :
    joinText done (p ++ s) = joinText (done ++ p) s := by
  have hne : p ≠ [] := by
    obtain ⟨c, t, rfl, -⟩ := hp.head
    exact List.cons_ne_nil c t
  rw [joinText, lines_append_left hp.no_feed hp.no_return hne, joinText, List.headD_cons,
    List.tail_cons, List.append_assoc]

/-- An indent is skipped, and nothing of the text behind it. -/
theorem joinText_wrap {indent : List Char} (hindent : ∀ c ∈ indent, c = ' ' ∨ c = '\t')
    (hdone : continues done = false)
    (hs : ∀ c, s.head? = some c → c = '\n' ∨ isBlank c = false) :
    joinText done ('\\' :: '\n' :: (indent ++ s)) = joinText done s := by
  have hlines : lines ('\\' :: '\n' :: (indent ++ s)) = ['\\'] :: lines (indent ++ s) :=
    lines_append (x := ['\\']) (by decide) (by decide) (indent ++ s)
  have hblank : ∀ c ∈ indent, isBlank c = true := by
    intro c hc
    rcases hindent c hc with rfl | rfl <;> decide
  obtain ⟨hstart, hfeed⟩ := prefix_head_lines s
  have hhead : skipBlanks ((lines s).headD []) = (lines s).headD [] := by
    refine skipBlanks_eq_self fun c hc => ?_
    cases hfirst : (lines s).headD [] with
    | nil =>
      rw [hfirst] at hc
      cases hc
    | cons d t =>
      rw [hfirst] at hc hstart hfeed
      obtain rfl := Option.some.inj hc
      obtain ⟨u, hu⟩ := hstart
      refine (hs d (by rw [← hu]; rfl)).resolve_left ?_
      rintro rfl
      exact hfeed List.mem_cons_self
  have hindented : skipBlanks ((lines (indent ++ s)).headD []) = (lines s).headD [] ∧
      (lines (indent ++ s)).tail = (lines s).tail := by
    by_cases hne : indent = []
    · rw [hne, List.nil_append]
      exact ⟨hhead, rfl⟩
    · have hfeed' : '\n' ∉ indent := fun h => by
        rcases hindent _ h with h | h <;> cases h
      have hreturn : indent.getLast? ≠ some '\r' := fun h => by
        rcases hindent _ (List.mem_of_getLast? h) with h | h <;> cases h
      rw [lines_append_left hfeed' hreturn hne, List.headD_cons, List.tail_cons]
      refine ⟨?_, rfl⟩
      rw [skipBlanks, List.dropWhile_append_of_pos hblank]
      exact hhead
  rw [joinText, hlines, List.headD_cons, List.tail_cons, joinContinued_backslash hdone,
    hindented.1, hindented.2]
  rfl

theorem logicalLines_nil : logicalLines [] = [] := by rw [logicalLines]

/-- A wrapped text starts with a piece or with a wrap. -/
theorem Wrapped.head? {ps : List (List Char)} (h : Wrapped ps s) (hps : ∀ p ∈ ps, Piece p)
    {c : Char} (hc : s.head? = some c) : isBlank c = false ∧ c ≠ '#' ∧ c ≠ '!' := by
  cases h with
  | nil => cases hc
  | piece h =>
    obtain ⟨d, t, rfl, hd⟩ := (hps _ List.mem_cons_self).head
    obtain rfl := Option.some.inj hc
    exact hd
  | wrap hindent h =>
    obtain rfl := Option.some.inj hc
    decide

/-- **A wrapped text is read as its pieces.** -/
theorem joinText_wrapped {ps : List (List Char)} (h : Wrapped ps s) (hps : ∀ p ∈ ps, Piece p)
    (hdone : continues done = false) (hend : LineEnd after rest) :
    joinText done (s ++ after) = (done ++ ps.flatten, rest) := by
  induction h generalizing done with
  | nil =>
    rw [List.nil_append, List.flatten_nil, List.append_nil]
    exact joinText_end hdone hend
  | @piece p ps s h ih =>
    obtain ⟨hp, hps⟩ := List.forall_mem_cons.mp hps
    rw [List.append_assoc, joinText_piece hp, ih hps (hp.closed done hdone), List.flatten_cons,
      List.append_assoc]
  | @wrap indent ps s hindent h ih =>
    have hhead : ∀ c, (s ++ after).head? = some c → c = '\n' ∨ isBlank c = false := by
      intro c hc
      cases s with
      | nil =>
        cases hend with
        | last => cases hc
        | feed s => exact .inl (Option.some.inj hc).symm
      | cons d s => exact .inr (h.head? hps hc).1
    rw [List.cons_append, List.cons_append, List.append_assoc, joinText_wrap hindent hdone hhead]
    exact ih hps hdone

theorem Wrapped.exists_cons {ps : List (List Char)} (h : Wrapped ps s) (hne : ps ≠ [])
    (hps : ∀ p ∈ ps, Piece p) : ∃ c t, s = c :: t := by
  cases h with
  | nil => exact absurd rfl hne
  | piece h =>
    obtain ⟨c, t, rfl, -⟩ := (hps _ List.mem_cons_self).head
    exact ⟨c, _, rfl⟩
  | wrap hindent h => exact ⟨_, _, rfl⟩

/-- **A property that is written as pieces is one line**, wrapped or not. -/
theorem logicalLines_wrapped {ps : List (List Char)} (h : Wrapped ps s) (hne : ps ≠ [])
    (hps : ∀ p ∈ ps, Piece p) (hend : LineEnd after rest) :
    logicalLines (lines (s ++ after)) = ps.flatten :: logicalLines rest := by
  have hjoin := joinText_wrapped h hps (rfl : continues [] = false) hend
  obtain ⟨c, t, rfl⟩ := h.exists_cons hne hps
  obtain ⟨hblank, hnumber, hmark⟩ := h.head? hps (rfl : (c :: t).head? = some c)
  have hfeed : '\n' ∉ [c] := by
    rw [List.mem_singleton]
    rintro rfl
    exact absurd hblank (by decide)
  have hreturn : [c].getLast? ≠ some '\r' := by
    rw [List.getLast?_singleton]
    rintro h
    obtain rfl := Option.some.inj h
    exact absurd hblank (by decide)
  have hlines := lines_append_left hfeed hreturn (List.cons_ne_nil c []) (t ++ after)
  rw [List.singleton_append, List.singleton_append] at hlines
  rw [List.cons_append] at hjoin ⊢
  rw [joinText, hlines, List.nil_append, List.headD_cons, List.tail_cons, List.nil_append] at hjoin
  have hskip : ∀ x, skipBlanks (c :: x) = c :: x := fun x =>
    skipBlanks_eq_self fun d hd => Option.some.inj hd ▸ hblank
  have hremark : ∀ x, isRemark (c :: x) = false := by
    intro x
    simp [isRemark, hnumber, hmark]
  rw [hlines, logicalLines, hskip, hremark, if_neg Bool.false_ne_true, hjoin]

/-! ### Lines that hold no property -/

/-- A line of blanks, or a comment: a number sign or an exclamation mark behind
any blanks, and then any text in the line. -/
inductive IsRemarkLine : List Char → Prop
  | blank {line : List Char} : (∀ c ∈ line, isBlank c = true) → '\n' ∉ line → IsRemarkLine line
  | comment {gap text : List Char} {mark : Char} : (∀ c ∈ gap, isBlank c = true) → '\n' ∉ gap →
      mark = '#' ∨ mark = '!' → '\n' ∉ text → IsRemarkLine (gap ++ mark :: text)

variable {line : List Char}

theorem IsRemarkLine.no_feed (h : IsRemarkLine line) : '\n' ∉ line := by
  cases h with
  | blank _ hfeed => exact hfeed
  | comment _ hgap hmark htext =>
    rw [List.mem_append, List.mem_cons, not_or, not_or]
    refine ⟨hgap, ?_, htext⟩
    rcases hmark with rfl | rfl <;> decide

theorem IsRemarkLine.isRemark_skipBlanks (h : IsRemarkLine line) :
    isRemark (skipBlanks line) = true := by
  cases h with
  | blank hblank _ =>
    have hskip : skipBlanks (line ++ []) = [] := by
      rw [skipBlanks, List.dropWhile_append_of_pos hblank, List.dropWhile_nil]
    rw [List.append_nil] at hskip
    rw [hskip]
    rfl
  | comment hgap _ hmark _ =>
    rw [skipBlanks, List.dropWhile_append_of_pos hgap]
    rcases hmark with rfl | rfl
    · rw [List.dropWhile_cons_of_neg (by decide)]
      rfl
    · rw [List.dropWhile_cons_of_neg (by decide)]
      rfl

theorem IsRemarkLine.dropReturn (h : IsRemarkLine line) : IsRemarkLine (dropReturn line) := by
  cases h with
  | blank hblank hfeed =>
    exact .blank (fun c hc => hblank c (mem_of_mem_dropReturn hc)) (mt mem_of_mem_dropReturn hfeed)
  | @comment gap text mark hgap hgap' hmark htext =>
    have hreturn : (gap ++ [mark]).getLast? ≠ some '\r' := by
      rw [List.getLast?_concat]
      rcases hmark with rfl | rfl <;> decide
    have hdrop := dropReturn_append hreturn text
    rw [List.append_assoc, List.append_assoc, List.singleton_append, List.singleton_append] at hdrop
    rw [hdrop]
    exact .comment hgap hgap' hmark (mt mem_of_mem_dropReturn htext)

theorem IsRemarkLine.logicalLines_cons (h : IsRemarkLine line) (ls : List (List Char)) :
    logicalLines (line :: ls) = logicalLines ls := by
  rw [logicalLines, h.isRemark_skipBlanks, if_pos rfl]

/-- A blank line or a comment is passed over. -/
theorem logicalLines_remark (h : IsRemarkLine line) (hend : LineEnd after rest) :
    logicalLines (lines (line ++ after)) = logicalLines rest := by
  cases hend with
  | last =>
    rw [List.append_nil]
    by_cases hne : line = []
    · rw [hne]
      rfl
    · rw [lines_of_not_mem h.no_feed hne, h.logicalLines_cons]
  | feed s =>
    rw [lines_append_feed h.no_feed, h.dropReturn.logicalLines_cons]

end Compositor.Macro
