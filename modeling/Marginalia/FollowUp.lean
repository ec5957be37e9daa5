import Marginalia.Review

/-!
# Conversations about an annotation

A follow-up question goes to a model with the annotation it is about folded into the
instructions.  The reply is free text.
-/

namespace Marginalia

structure FollowUp where
  current : Option Annotation := none
  deriving DecidableEq, Inhabited

namespace FollowUp

def turnTo (_ : FollowUp) (a : Annotation) : FollowUp :=
  ⟨some a⟩

/-- Instructions when there is an annotation, file context, document, and the question last. -/
def messages (f : FollowUp) (question : NonBlank) (fileContext document : List Message) :
    List Message :=
  (f.current.bind fun a => Message.system? (Prompt.followUp a)).toList ++ fileContext ++
    document ++ [Message.ofNonBlank .user question]

def ask (f : FollowUp) (r : Reviewer) (question : NonBlank) (fileContext : List Message)
    (document : Option Document) (token : Model.Token) (x : Model.Exchange) :
    Except ReviewFailure (List Model.Event) × Model.Exchange :=
  match r.model? with
  | none => (.error .noModelAvailable, x)
  | some model =>
      let rows := (document.map (·.messages r.settings.scope r.settings.budget)).getD []
      match x.send ⟨model, f.messages question fileContext rows, token⟩ with
      | (.refused failure, x) => (.error (.ofModel failure), x)
      | (.stream events, x) => (.ok events, x)

end FollowUp

end Marginalia
