/-
# Kinds of handlers

Which kind of handler may accept a token is up to the token alone: each of
the reserved names belongs to one kind, and every other name to the handlers
of values. So of handlers of different kinds one at most accepts a token. A
handler that declines a token does no more than warn of a forbidden override.

Key definitions: `HandlerKind`, `Handler.kind`, `Token.kind`.
Key theorems: `Handler.kind_of_accept`, `countP_accept_le_one`.
-/
import Mathlib.Data.List.Nodup
import Compositor.Macro.Pass

namespace Compositor.Macro

/-- What handlers are for. -/
inductive HandlerKind where
  | inclusion
  | mainText
  | value
  | contents
  deriving Repr, DecidableEq

def Handler.kind : Handler → HandlerKind
  | inclusion _ => .inclusion
  | mainText _ => .mainText
  | value _ => .value
  | contents _ => .contents

/-- The kind of the handlers that a token is for. -/
def Token.kind (t : Token) : HandlerKind :=
  if t.name = includeName then .inclusion
  else if t.name = mainTextName then .mainText
  else if t.name = contentsName then .contents
  else .value

namespace Handler

theorem verdict_eq_accept {accepted : Bool} (h : verdict accepted = .accept) :
    accepted = true := by
  cases accepted with
  | true => rfl
  | false => cases h

/-- A token is accepted by handlers of its kind only. -/
theorem kind_of_accept {t : Token} {h : Handler} (hjudge : h.judge t = .accept) :
    h.kind = t.kind := by
  cases h with
  | inclusion w =>
    have haccepted := verdict_eq_accept hjudge
    simp only [Bool.and_eq_true, decide_eq_true_eq] at haccepted
    simp only [kind, Token.kind, haccepted.1, if_true]
  | mainText content? =>
    have haccepted := verdict_eq_accept hjudge
    simp only [Token.isJust, Bool.and_eq_true, decide_eq_true_eq] at haccepted
    have hname : mainTextName ≠ includeName := by decide
    simp only [kind, Token.kind, haccepted.1, hname, if_false, if_true]
  | contents title =>
    have haccepted := verdict_eq_accept hjudge
    simp only [Token.isJust, Bool.and_eq_true, decide_eq_true_eq] at haccepted
    have hname : contentsName ≠ includeName := by decide
    have hname' : contentsName ≠ mainTextName := by decide
    simp only [kind, Token.kind, haccepted.1, hname, hname', if_false, if_true]
  | value table =>
    rw [judge] at hjudge
    split at hjudge
    · split at hjudge <;> cases hjudge
    · -- a name that is not reserved is none of the three
      rename_i hreserved
      simp only [Token.isReserved, isReserved, reservedNames, List.mem_cons, List.not_mem_nil,
        or_false, decide_eq_true_eq, not_or] at hreserved
      obtain ⟨hcontents, hmainText, hinclusion⟩ := hreserved
      simp only [kind, Token.kind, hcontents, hmainText, hinclusion, if_false]

/-- A handler that refuses a token warns of a forbidden override. -/
theorem kind_of_refuse {t : Token} {h : Handler} {kind : DiagnosticKind} {detail : String}
    (hjudge : h.judge t = .refuse kind detail) : kind = .forbiddenOverride := by
  have hverdict : ∀ accepted, Handler.verdict accepted ≠ .refuse kind detail := by
    intro accepted
    cases accepted <;> exact nofun
  cases h with
  | value table =>
    rw [judge] at hjudge
    split at hjudge
    · split at hjudge
      · cases hjudge
        rfl
      · cases hjudge
    · exact absurd hjudge (hverdict _)
  | inclusion | mainText | contents => exact absurd hjudge (hverdict _)

end Handler

/-- Of handlers of different kinds one at most accepts a token. -/
theorem countP_accept_le_one {hs : List Handler} (hkinds : (hs.map Handler.kind).Nodup)
    (t : Token) : hs.countP (fun h => h.judge t = .accept) ≤ 1 := by
  calc hs.countP (fun h => h.judge t = .accept)
      ≤ hs.countP (fun h => h.kind = t.kind) := by
        refine List.countP_mono_left fun h _ hjudge => ?_
        simp only [decide_eq_true_eq] at hjudge ⊢
        exact Handler.kind_of_accept hjudge
    _ = (hs.map Handler.kind).count t.kind := by
        rw [List.count, List.countP_map]
        rfl
    _ ≤ 1 := List.nodup_iff_count_le_one.mp hkinds t.kind

/-- Before and behind a handler that accepts a token no other one does. -/
theorem not_accept_around {t : Token} {front back : List Handler} {h : Handler}
    (hkinds : ((front ++ h :: back).map Handler.kind).Nodup) (hjudge : h.judge t = .accept) :
    ∀ g ∈ front ++ back, g.judge t ≠ .accept := by
  intro g hg haccept
  have hsame : g.kind = h.kind :=
    (Handler.kind_of_accept haccept).trans (Handler.kind_of_accept hjudge).symm
  have hmiddle : (front ++ h :: back).Perm (h :: (front ++ back)) := List.perm_middle
  have hnodup := (hmiddle.map Handler.kind).nodup_iff.mp hkinds
  rw [List.map_cons, List.nodup_cons, ← hsame] at hnodup
  exact hnodup.1 (List.mem_map_of_mem hg)

end Compositor.Macro
