import Mathlib.Data.List.Forall2
import Marginalia.Proofs.Json.Front
import Marginalia.Proofs.Record.Plain

/-!
# Objects member by member

The text of an object is laid out in members.  Each has a key in quotes and, behind a colon,
the text of a value; between these, and around the commas and braces, there are blanks only.
What a text is laid out in is what is read from it.
-/

namespace Marginalia

namespace Json

theorem Reads.append_of_delimited {depth : Nat} {text rest : List Char} {v : Json}
    (h : Reads depth text (.value v) []) (hrest : Delimited rest) :
    Reads depth (text ++ rest) (.value v) rest := by
  cases v with
  | number n =>
      cases h with
      | @negative _ _ body _ _ ahead number =>
          rw [← List.append_nil body] at number
          exact .negative (skipSpace_append ahead rest)
            (numberBody_of_delimited number delimited_nil hrest)
      | @unsigned _ _ body _ c _ ahead digit number =>
          rw [← List.append_nil (c :: body)] at number
          exact .unsigned (skipSpace_append ahead rest) digit
            (numberBody_of_delimited number delimited_nil hrest)
  | _ => exact h.append False.elim rest

end Json

namespace Record

open Json (Reads Body Delimited Separated skipSpace)

/-! ## Layouts -/

/-- A member as it is written: its key, and the text of its value without blanks around it. -/
structure Member where
  key : String
  text : List Char

/-- Whether a text is that of a value inside an object, with no blanks around it. -/
structure Token (text : List Char) (v : Json) : Prop where
  tight : skipSpace text = text
  reads : Reads (Json.maxDepth - 1) text (.value v) []

inductive Member.Written (m : Member) : List Char → Prop where
  | intro {first second third fourth name : List Char} (hfirst : Blanks first)
      (hname : Body name m.key.toList []) (hsecond : Blanks second) (hthird : Blanks third)
      (hfourth : Blanks fourth) :
      Written m (first ++ '"' :: (name ++ (second ++ ':' :: (third ++ (m.text ++ fourth)))))

inductive Inside : List Member → List Char → Prop where
  | none {blanks : List Char} (h : Blanks blanks) : Inside [] (blanks ++ ['\x7d'])
  | last {m : Member} {chars : List Char} (h : m.Written chars) : Inside [m] (chars ++ ['\x7d'])
  | more {m next : Member} {members : List Member} {chars text : List Char} (h : m.Written chars)
      (others : Inside (next :: members) text) :
      Inside (m :: next :: members) (chars ++ ',' :: text)

structure ObjectText (members : List Member) (text : List Char) : Prop where
  layout : ∃ lead inner, text = lead ++ '\x7b' :: inner ∧ Blanks lead ∧ Inside members inner
  values : ∀ m ∈ members, ∃ v, Token m.text v

def Member.Holds (m : Member) (pair : String × Json) : Prop :=
  m.key = pair.1 ∧ Token m.text pair.2

/-! ## From a layout to a value -/

theorem Member.Written.reads {m : Member} {pair : String × Json} {chars rest : List Char}
    (h : m.Written chars) (hpair : m.Holds pair) (hrest : Separated rest) :
    ∃ after, Reads (Json.maxDepth - 1) (chars ++ rest) (.member pair) after ∧
      skipSpace after = skipSpace rest := by
  obtain ⟨hkey, htoken⟩ := hpair
  cases h with
  | @intro first second third fourth name hfirst hname hsecond hthird hfourth =>
      refine ⟨fourth ++ rest, ?_, Json.skipSpace_blanks_append hfourth rest⟩
      have hafter : Separated (fourth ++ rest) := by
        rwa [Separated, Json.skipSpace_blanks_append hfourth]
      have hquote := Json.skipSpace_blanks_append hfirst
        ('"' :: (name ++ (second ++ ':' :: (third ++ (m.text ++ (fourth ++ rest))))))
      rw [Json.skipSpace_cons_of_not_isSpace (by decide)] at hquote
      have hcolon := Json.skipSpace_blanks_append hsecond
        (':' :: (third ++ (m.text ++ (fourth ++ rest))))
      rw [Json.skipSpace_cons_of_not_isSpace (by decide)] at hcolon
      have hvalue := (htoken.reads.append_of_delimited hafter.delimited).of_skipSpace_eq
        (Json.skipSpace_blanks_append hthird (m.text ++ (fourth ++ rest)))
      have hbody := hname.append (second ++ ':' :: (third ++ (m.text ++ (fourth ++ rest))))
      have hmember := Reads.member hquote hbody hcolon hvalue
      rw [String.ofList_toList, hkey] at hmember
      simpa using hmember

theorem Inside.reads {m : Member} {members : List Member} {pair : String × Json}
    {pairs : List (String × Json)} {text : List Char} (h : Inside (m :: members) text)
    (hpairs : List.Forall₂ Member.Holds (m :: members) (pair :: pairs)) :
    ∃ after, Reads (Json.maxDepth - 1) text (.member pair) after ∧
      Reads (Json.maxDepth - 1) after (.members pairs) [] := by
  generalize hall : m :: members = all at h hpairs
  induction h generalizing m members pair pairs with
  | none _ => cases hall
  | last h =>
      cases hpairs with
      | cons hpair hothers =>
          cases hothers
          have hclose : skipSpace ['\x7d'] = ['\x7d'] := by decide
          obtain ⟨after, hmember, hafter⟩ := h.reads hpair ⟨'\x7d', [], hclose, by simp⟩
          exact ⟨after, hmember, .membersEnd (hafter.trans hclose)⟩
  | @more _ next others chars text h _ ih =>
      cases hpairs with
      | cons hpair hothers =>
          have hcomma : skipSpace (',' :: text) = ',' :: text :=
            Json.skipSpace_cons_of_not_isSpace (by decide)
          obtain ⟨after, hmember, hafter⟩ := h.reads hpair ⟨',', text, hcomma, by simp⟩
          cases hothers with
          | cons hnext hlater =>
              obtain ⟨after', hfirst, hmembers⟩ := ih rfl (.cons hnext hlater)
              exact ⟨after, hmember, .membersMore (hafter.trans hcomma) hfirst hmembers⟩

theorem exists_pairs {members : List Member} (h : ∀ m ∈ members, ∃ v, Token m.text v) :
    ∃ pairs, List.Forall₂ Member.Holds members pairs := by
  induction members with
  | nil => exact ⟨[], .nil⟩
  | cons m members ih =>
      obtain ⟨v, hv⟩ := h m List.mem_cons_self
      obtain ⟨pairs, hpairs⟩ := ih fun other hother => h other (List.mem_cons_of_mem m hother)
      exact ⟨(m.key, v) :: pairs, .cons ⟨rfl, hv⟩ hpairs⟩

/-- A text of an object is read as the object. -/
theorem ObjectText.exists_reads {members : List Member} {text : List Char}
    (h : ObjectText members text) :
    ∃ pairs, List.Forall₂ Member.Holds members pairs ∧
      Reads Json.maxDepth text (.value (.object pairs)) [] := by
  obtain ⟨pairs, hpairs⟩ := exists_pairs h.values
  refine ⟨pairs, hpairs, ?_⟩
  obtain ⟨lead, inner, rfl, hlead, hinside⟩ := h.layout
  have hbrace := Json.skipSpace_blanks_append hlead ('\x7b' :: inner)
  rw [Json.skipSpace_cons_of_not_isSpace (by decide)] at hbrace
  cases hpairs with
  | nil =>
      cases hinside with
      | none hblanks =>
          have hclose := Json.skipSpace_blanks_append hblanks ['\x7d']
          exact @Reads.emptyObject (Json.maxDepth - 1) _ _ _ hbrace hclose
  | cons hpair hothers =>
      obtain ⟨after, hmember, hmembers⟩ := hinside.reads (.cons hpair hothers)
      exact @Reads.object (Json.maxDepth - 1) _ _ _ _ _ _ hbrace hmember hmembers

/-! ## From a value to a layout -/

theorem exists_written {front : List Char} {pair : String × Json}
    (h : Reads (Json.maxDepth - 1) front (.member pair) []) :
    ∃ m : Member, m.Holds pair ∧ ∀ fourth, Blanks fourth → m.Written (front ++ fourth) := by
  cases h with
  | @member _ _ body cs after next _ v ahead name colon value =>
      obtain ⟨chars, hbody, hname⟩ := @Body.exists_front _ _ [] after name
      obtain ⟨first, hfront, hfirst⟩ := Json.exists_blanks_append front
      obtain ⟨second, hafter, hsecond⟩ := Json.exists_blanks_append after
      obtain ⟨third, hnext, hthird⟩ := Json.exists_blanks_append next
      have hvalue := value.of_skipSpace_eq (Json.skipSpace_skipSpace next)
      refine ⟨⟨String.ofList cs, skipSpace next⟩,
        ⟨rfl, Json.skipSpace_skipSpace next, hvalue⟩, fun fourth hfourth => ?_⟩
      rw [← String.toList_ofList (l := cs)] at hname
      have hwritten := @Member.Written.intro ⟨String.ofList cs, skipSpace next⟩ _ _ _ _ _
        hfirst hname hsecond hthird hfourth
      rw [hfront, ahead, hbody, hafter, colon]
      -- The text of the value is what is left of `next` behind its blanks.
      rw [hnext, Json.skipSpace_blanks_append hthird, Json.skipSpace_skipSpace]
      simpa using hwritten

theorem exists_inside {m : Member} {front after : List Char} {pairs : List (String × Json)}
    (hm : ∀ fourth, Blanks fourth → m.Written (front ++ fourth))
    (h : Reads (Json.maxDepth - 1) after (.members pairs) []) :
    ∃ members, List.Forall₂ Member.Holds members pairs ∧
      Inside (m :: members) (front ++ after) := by
  induction pairs generalizing m front after with
  | nil =>
      cases h with
      | membersEnd close =>
          obtain ⟨blanks, hafter, hblanks⟩ := Json.exists_blanks_append after
          rw [hafter, close, ← List.append_assoc]
          exact ⟨[], .nil, .last (hm blanks hblanks)⟩
  | cons pair pairs ih =>
      cases h with
      | @membersMore _ _ next behind _ _ _ comma first others =>
          obtain ⟨blanks, hafter, hblanks⟩ := Json.exists_blanks_append after
          obtain ⟨front', hnext, hmember⟩ := @Reads.exists_front _ _ [] behind _ first
            fun _ => others.separated_members.delimited
          obtain ⟨m', hpair, hm'⟩ := exists_written hmember
          obtain ⟨members, hpairs, hinside⟩ := ih hm' others
          rw [hafter, comma, ← List.append_assoc, hnext]
          exact ⟨m' :: members, .cons hpair hpairs, .more (hm blanks hblanks) hinside⟩

theorem exists_token_of_holds {members : List Member} {pairs : List (String × Json)}
    (h : List.Forall₂ Member.Holds members pairs) : ∀ m ∈ members, ∃ v, Token m.text v := by
  induction h with
  | nil => simp
  | @cons _ pair _ _ hpair _ ih =>
      intro m hm
      rcases List.mem_cons.mp hm with rfl | hlater
      · exact ⟨pair.2, hpair.2⟩
      · exact ih m hlater

theorem exists_objectText {text : List Char} {pairs : List (String × Json)}
    (h : Reads Json.maxDepth text (.value (.object pairs)) []) :
    ∃ members, ObjectText members text := by
  obtain ⟨lead, htext, hlead⟩ := Json.exists_blanks_append text
  cases h with
  | @emptyObject _ _ inner _ ahead close =>
      obtain ⟨blanks, hinner, hblanks⟩ := Json.exists_blanks_append inner
      rw [ahead] at htext
      rw [close] at hinner
      refine ⟨[], ⟨⟨lead, inner, htext, hlead, ?_⟩, fun _ hm => absurd hm List.not_mem_nil⟩⟩
      rw [hinner]
      exact .none hblanks
  | @object _ _ inner after _ pair pairs ahead first others =>
      obtain ⟨front, hinner, hmember⟩ := @Reads.exists_front _ _ [] after _ first
        fun _ => others.separated_members.delimited
      obtain ⟨m, hpair, hm⟩ := exists_written hmember
      obtain ⟨members, hpairs, hinside⟩ := exists_inside hm others
      rw [ahead] at htext
      refine ⟨m :: members, ⟨⟨lead, inner, htext, hlead, ?_⟩,
        exists_token_of_holds (.cons hpair hpairs)⟩⟩
      rw [hinner]
      exact hinside

end Record

end Marginalia
