import Marginalia.Model.Reply

/-!
# Requests and their replies

Every request gets the next of the replies to come.  After some requests the exchange holds
them behind those made before, and the replies that are left.
-/

namespace Marginalia

namespace Model

namespace Exchange

def answer (x : Exchange) (count : Nat) : Reply :=
  x.replies[count]?.getD x.further

structure Since (start x : Exchange) (made : List Request) : Prop where
  requests : x.requests = start.requests ++ made
  replies : x.replies = start.replies.drop made.length
  further : x.further = start.further

namespace Since

variable {start x : Exchange} {made : List Request}

theorem refl (x : Exchange) : x.Since x [] :=
  ⟨(List.append_nil _).symm, rfl, rfl⟩

theorem issue (h : start.Since x made) : start.Since x.issue.2 made :=
  ⟨h.requests, h.replies, h.further⟩

theorem cancel (h : start.Since x made) (token : Token) : start.Since (x.cancel token) made :=
  ⟨h.requests, h.replies, h.further⟩

theorem cancelIf (h : start.Since x made) (token : Token) (condition : Bool) :
    start.Since (x.cancelIf token condition) made := by
  rw [Exchange.cancelIf]
  split
  · exact h.cancel token
  · exact h

theorem send (h : start.Since x made) (request : Request) :
    (x.send request).1 = start.answer made.length ∧
      start.Since (x.send request).2 (made ++ [request]) := by
  have hdue : x.replies[0]?.getD x.further = start.answer made.length := by
    rw [h.replies, h.further, List.getElem?_drop, Nat.add_zero]
    rfl
  have hrequests : x.requests ++ [request] = start.requests ++ (made ++ [request]) := by
    rw [h.requests, List.append_assoc]
  have hleft : x.replies.drop 1 = start.replies.drop (made ++ [request]).length := by
    rw [h.replies, List.drop_drop, List.length_append]
    rfl
  rw [← hdue, Exchange.send]
  cases hreplies : x.replies with
  | nil =>
      rw [hreplies] at hleft
      exact ⟨rfl, hrequests, hleft, h.further⟩
  | cons reply replies =>
      rw [hreplies] at hleft
      exact ⟨rfl, hrequests, hleft, h.further⟩

end Since

theorem cancelled_send (x : Exchange) (request : Request) :
    (x.send request).2.cancelled = x.cancelled := by
  rw [send]
  cases x.replies with
  | nil => rfl
  | cons reply replies => rfl

theorem subset_cancelled_cancelIf (x : Exchange) (token : Token) (condition : Bool) :
    x.cancelled ⊆ (x.cancelIf token condition).cancelled := by
  rw [cancelIf]
  split
  · exact fun _ => List.mem_cons_of_mem token
  · exact fun _ => id

end Exchange

end Model

end Marginalia
