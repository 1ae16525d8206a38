import CyberSentinel.HeadLines

/-!
# Heads with mixed line endings

Lines may end in a bare line feed or in a carriage return and a line feed, each as it likes. A head
is returned with its last byte unless its empty line ends in a carriage return and a line feed and
the line before it in a line feed only: then the parser goes on waiting for its end.
-/

namespace CyberSentinel

open Frames

namespace HttpParser

variable {options : NormalizeConfig} {p : HttpParser}

structure AtStart (p : HttpParser) : Prop where
  buffer : p.buffer = []
  resynchronising : p.resynchronising = false

theorem pushAll_holds (options : NormalizeConfig) {pieces : List (List UInt8)}
    (hsync : p.resynchronising = false)
    (h : Incomplete EndsHead (p.buffer ++ pieces.flatten))
    (hlength : (p.buffer ++ pieces.flatten).length ≤ p.maxHead) :
    let q := (pushAll options p pieces).1
    q.buffer = p.buffer ++ pieces.flatten ∧ q.resynchronising = false ∧ q.maxHead = p.maxHead := by
  induction pieces generalizing p with
  | nil => exact ⟨(List.append_nil _).symm, hsync, rfl⟩
  | cons bytes pieces ih =>
    rw [List.flatten_cons, ← List.append_assoc] at h hlength
    have htook := push_took options p bytes ((split_nil _).2 (h.of_prefix (List.prefix_append _ _)))
    have hshort : ¬ p.maxHead < (p.buffer ++ bytes).length := by
      rw [List.length_append] at hlength
      omega
    have hbuffer : (p.push bytes options).1.buffer = p.buffer ++ bytes := by
      rw [htook.buffer_eq, if_neg hshort]
    have hrest := ih (p := (p.push bytes options).1)
      (by rw [htook.resynchronising_eq, hsync, decide_eq_false hshort]; rfl) (by rwa [hbuffer])
      (by rwa [hbuffer, htook.maxHead_eq])
    rw [hbuffer, htook.maxHead_eq, List.append_assoc, ← List.flatten_cons] at hrest
    exact hrest

/-- However the head is cut into pieces: none before the last of them returns anything, the last one
returns its request, and what follows it, in the same piece or not, is read from its first byte. -/
def ReturnedAtEnd (options : NormalizeConfig) (p : HttpParser) (head : List UInt8)
    (request : HttpRequest) : Prop :=
  ∀ (before : List (List UInt8)) (last rest : List UInt8),
    before.flatten ++ last = head → last ≠ [] →
    let q := (pushAll options p before).1
    (pushAll options p before).2.flatten = [] ∧ (q.push last options).2 = [request] ∧
      (q.push last options).1.AtStart ∧
      (q.push (last ++ rest) options).2 = request :: ((q.push last options).1.push rest options).2

theorem returnedAtEnd_of_isFrame {head : List UInt8} {request : HttpRequest} (hp : p.AtStart)
    (hframe : IsFrame EndsHead head) (hlength : head.length ≤ p.maxHead)
    (hrequest : parseHead head options = some request) : ReturnedAtEnd options p head request := by
  intro before last rest hcut hlast q
  have hbegun : Incomplete EndsHead (p.buffer ++ before.flatten) := by
    rw [hp.buffer, List.nil_append]
    refine hframe.incomplete (hcut ▸ List.prefix_append _ _) fun heq => hlast ?_
    rw [← heq] at hcut
    exact List.append_right_eq_self.1 hcut
  have hbuffered : (p.buffer ++ before.flatten).length ≤ p.maxHead := by
    rw [hp.buffer, List.nil_append]
    rw [← hcut, List.length_append] at hlength
    omega
  have hheld := pushAll_holds options hp.resynchronising hbegun hbuffered
  obtain ⟨hbuffer, hsync, hmax⟩ := hheld
  rw [hp.buffer, List.nil_append] at hbuffer
  -- all of the head is there with the last piece
  have hwhole : Split EndsHead (q.buffer ++ last) [head] [] := by
    rw [hbuffer, hcut]
    have hsplit := Split.cons hframe ((split_nil []).2 (new_buffer_incomplete 0))
    rwa [List.append_nil] at hsplit
  have htook := push_took options q last hwhole
  have hstart : (q.push last options).1.AtStart := by
    refine ⟨?_, ?_⟩
    · rw [htook.buffer_eq, ite_self]
    · rw [htook.resynchronising_eq, hsync]
      rfl
  have hreturned : (q.push last options).2 = [request] := by
    rw [htook.requests_eq, hsync, if_neg Bool.false_ne_true, List.filterMap_cons, hrequest]
    rfl
  refine ⟨pushAll_of_incomplete hbegun, hreturned, hstart, ?_⟩
  obtain ⟨heads, left, hrest⟩ := exists_split not_endsHead_nil rest
  have hmore : Split EndsHead (q.buffer ++ (last ++ rest)) (head :: heads) left := by
    rw [hbuffer, ← List.append_assoc, hcut]
    exact hrest.cons hframe
  have hafter := push_took options (q.push last options).1 rest
    (by rw [hstart.buffer, List.nil_append]; exact hrest)
  rw [(push_took options q (last ++ rest) hmore).requests_eq, hafter.requests_eq, hsync,
    hstart.resynchronising, if_neg Bool.false_ne_true, if_neg Bool.false_ne_true,
    List.filterMap_cons,
    hrequest]

/-- A head whose lines end as they like is returned at its end exactly if its own end is not mixed.
-/
theorem mixed_head_returned_iff (options : NormalizeConfig) (p : HttpParser) (hp : p.AtStart)
    (lines : List (List UInt8)) (last : List UInt8) (hhead : HeadLines lines last)
    (hlength : (headOf lines last).length ≤ p.maxHead) (request : HttpRequest)
    (hrequest : parseHead (headOf lines last) options = some request) :
    ReturnedAtEnd options p (headOf lines last) request ↔ ¬ MixedEnd lines last := by
  constructor
  · intro hreturned hmixed
    have hne : headOf lines last ≠ [] := by
      rw [headOf, join_concat]
      exact List.append_ne_nil_of_right_ne_nil _ (List.cons_ne_nil _ _)
    obtain ⟨-, hlast, -⟩ := hreturned [] (headOf lines last) [] rfl hne
    have htook := push_took options p (headOf lines last)
      ((split_nil _).2 (by rw [hp.buffer, List.nil_append]; exact hhead.incomplete hmixed))
    have hnone : (p.push (headOf lines last) options).2 = [] := by
      rw [htook.requests_eq, hp.resynchronising]
      rfl
    exact List.cons_ne_nil _ _ (hlast.symm.trans hnone)
  · intro hend
    exact returnedAtEnd_of_isFrame hp (hhead.isFrame hend) hlength hrequest

/-- `GET /` -/
def getLine : List UInt8 := [0x47, 0x45, 0x54, 0x20, 0x2f]

def getRequest : HttpRequest := { method := [0x47, 0x45, 0x54], rawUri := [0x2f], uri := [0x2f] }

theorem headLines_getLine {last : List UInt8} (h : IsEmptyLine last) {cr : List UInt8}
    (hcr : IsEmptyLine cr) : HeadLines [getLine ++ cr] last := by
  refine ⟨List.cons_ne_nil _ _, ?_, ?_, h⟩
  · rcases hcr with rfl | rfl
    · decide
    · decide
  · intro line hline
    rw [List.mem_singleton.1 hline, IsEmptyLine]
    rcases hcr with rfl | rfl
    · decide
    · decide

/-- `GET /` ended by CR LF, and a bare LF. -/
theorem mixed_head_returned_crlf_then_lf :
    ReturnedAtEnd {} (new 64) (headOf [getLine ++ [carriageReturn]] []) getRequest :=
  (mixed_head_returned_iff {} (new 64) ⟨rfl, rfl⟩ [getLine ++ [carriageReturn]] []
    (headLines_getLine (Or.inl rfl) (Or.inr rfl)) (by decide) getRequest (by decide +kernel)).2
    fun hmixed => absurd hmixed.1 (by decide)

/-- `GET /` ended by a bare LF, and CR LF: the head is not returned, and the next one is taken for a
part of it. -/
theorem lf_then_crlf_missed :
    HeadLines [getLine] [carriageReturn] ∧
      parseHead (headOf [getLine] [carriageReturn]) {} = some getRequest ∧
      ¬ ReturnedAtEnd {} (new 64) (headOf [getLine] [carriageReturn]) getRequest ∧
      ((new 64).push (headOf [getLine] [carriageReturn]) {}).2 = [] ∧
      ((new 64).push (headOf [getLine] [carriageReturn] ++ headOf [getLine] []) {}).2.length =
      1 := by
  have hnone : ((new 64).push (headOf [getLine] [carriageReturn]) {}).2 = [] := by decide +kernel
  have hlines : HeadLines [getLine ++ []] [carriageReturn] :=
    headLines_getLine (Or.inr rfl) (Or.inl rfl)
  refine ⟨hlines, by decide +kernel, ?_, hnone, by decide +kernel⟩
  intro hreturned
  obtain ⟨-, hlast, -⟩ := hreturned [] (headOf [getLine] [carriageReturn]) [] rfl (by decide)
  exact List.cons_ne_nil _ _ (hlast.symm.trans hnone)

end HttpParser
end CyberSentinel
