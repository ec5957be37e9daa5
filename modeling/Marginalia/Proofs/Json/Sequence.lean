import Marginalia.Proofs.Json.Accepted

/-!
# Lists of items and objects with members

What the reader takes for a list depends on what it takes for an item, and what it takes for
an object depends on what it takes for a member.  Both are parameters of the grammar here, so
that one induction serves lists and objects of any kind.
-/

namespace Marginalia

namespace Json

/-- The items of a list up to its closing bracket, the first of them or those that follow one. -/
inductive Items {α : Type} (reads : List Char → α → List Char → Prop) :
    Bool → List Char → List α → List Char → Prop where
  | close {isFirst : Bool} {text rest : List Char} (ahead : skipSpace text = ']' :: rest) :
      Items reads isFirst text [] rest
  | first {text after rest : List Char} {a : α} {as : List α} (item : reads text a after)
      (others : Items reads false after as rest) : Items reads true text (a :: as) rest
  | more {text next after rest : List Char} {a : α} {as : List α}
      (comma : skipSpace text = ',' :: next) (item : reads next a after)
      (others : Items reads false after as rest) : Items reads false text (a :: as) rest

/-- A member: a name, spelled as `spells` says, a colon, and what `reads` finds behind it. -/
inductive Member {α : Type} (spells : List Char → List Char → List Char → Prop)
    (reads : String → List Char → α → List Char → Prop) :
    String × α → List Char → List Char → Prop where
  | intro {text body cs after next rest : List Char} {a : α} (ahead : skipSpace text = '"' :: body)
      (name : spells body cs after) (colon : skipSpace after = ':' :: next)
      (value : reads (String.ofList cs) next a rest) :
      Member spells reads (String.ofList cs, a) text rest

/-- The members of an object up to its closing brace, the first of them or those behind one. -/
inductive Members {α : Type} (spells : List Char → List Char → List Char → Prop)
    (reads : String → List Char → α → List Char → Prop) :
    Bool → List Char → List (String × α) → List Char → Prop where
  | close {isFirst : Bool} {text rest : List Char} (ahead : skipSpace text = '\x7d' :: rest) :
      Members spells reads isFirst text [] rest
  | first {text after rest : List Char} {m : String × α} {ms : List (String × α)}
      (member : Member spells reads m text after)
      (others : Members spells reads false after ms rest) :
      Members spells reads true text (m :: ms) rest
  | more {text next after rest : List Char} {m : String × α} {ms : List (String × α)}
      (comma : skipSpace text = ',' :: next) (member : Member spells reads m next after)
      (others : Members spells reads false after ms rest) :
      Members spells reads false text (m :: ms) rest

/-! ## Lists -/

/-- Puts what a reader gives in front of what it gave before. -/
def pushing {α : Type} (reader : Reader α) (acc : List α) : Reader (List α) := fun cs => do
  let (a, rest) ← reader cs
  return (a :: acc, rest)

/-- Whether a reader gives what a grammar derives, of texts that are not too long. -/
structure Realizes {α : Type} (bound : Nat) (reader : Reader α)
    (reads : List Char → α → List Char → Prop) : Prop where
  iff : ∀ {text a rest}, text.length ≤ bound → (reader text = .ok (a, rest) ↔ reads text a rest)
  blanks : ∀ text, reader (skipSpace text) = reader text
  ahead : ∀ {text a rest}, text.length ≤ bound → reads text a rest →
    ∃ c after, skipSpace text = c :: after ∧ c ≠ ']' ∧ rest.length ≤ after.length

section

variable {α : Type} {bound : Nat} {reader : Reader α} {reads : List Char → α → List Char → Prop}

theorem Realizes.length_lt (h : Realizes bound reader reads) {text rest : List Char} {a : α}
    (hbound : text.length ≤ bound) (hreads : reads text a rest) : rest.length < text.length := by
  obtain ⟨c, after, hahead, -, hle⟩ := h.ahead hbound hreads
  exact Nat.lt_of_le_of_lt hle (length_lt_of_skipSpace_eq hahead)

theorem pushing_eq_ok_iff {acc acc' : List α} {text rest : List Char} :
    pushing reader acc text = .ok (acc', rest) ↔
      ∃ a, reader text = .ok (a, rest) ∧ acc' = a :: acc := by
  rw [pushing, bind_eq_ok_iff]
  constructor
  · rintro ⟨⟨a, after⟩, ha, hpure⟩
    cases hpure
    exact ⟨a, ha, rfl⟩
  · rintro ⟨a, ha, rfl⟩
    exact ⟨(a, rest), ha, rfl⟩

theorem Items.of_foldItems (h : Realizes bound reader reads) {fuel : Nat} {isFirst : Bool}
    {acc acc' : List α} {text rest : List Char} (hbound : text.length ≤ bound)
    (hfold : foldItems (pushing reader) fuel isFirst acc text = .ok (acc', rest)) :
    ∃ as, acc' = as.reverse ++ acc ∧ Items reads isFirst text as rest := by
  induction fuel generalizing isFirst acc text with
  | zero => simp [foldItems, faultAtEnd] at hfold
  | succ fuel ih =>
      obtain ⟨ahead, hnext, hitems⟩ := bind_eq_ok_iff.mp hfold
      cases ahead with
      | closed after =>
          cases hitems
          exact ⟨[], rfl, .close (nextItem_closed hnext)⟩
      | item ahead =>
          obtain ⟨⟨acc₁, after⟩, hitem, hrest⟩ := bind_eq_ok_iff.mp hitems
          obtain ⟨a, ha, rfl⟩ := pushing_eq_ok_iff.mp hitem
          cases isFirst with
          | true =>
              cases nextItem_first hnext
              rw [h.blanks] at ha
              have hreads := (h.iff hbound).mp ha
              have hlt := h.length_lt (by omega) hreads
              obtain ⟨as, rfl, hothers⟩ := ih (by omega) hrest
              exact ⟨a :: as, by simp, .first hreads hothers⟩
          | false =>
              obtain ⟨next, hcomma, rfl⟩ := nextItem_more hnext
              have hnext := length_lt_of_skipSpace_eq hcomma
              rw [h.blanks] at ha
              have hreads := (h.iff (by omega)).mp ha
              have hlt := h.length_lt (by omega) hreads
              obtain ⟨as, rfl, hothers⟩ := ih (by omega) hrest
              exact ⟨a :: as, by simp, .more hcomma hreads hothers⟩

theorem Items.foldItems_eq (h : Realizes bound reader reads) {isFirst : Bool} {as : List α}
    {text rest : List Char} (hitems : Items reads isFirst text as rest) {fuel : Nat}
    (hbound : text.length ≤ bound) (hfuel : text.length < fuel) (acc : List α) :
    foldItems (pushing reader) fuel isFirst acc text = .ok (as.reverse ++ acc, rest) := by
  induction hitems generalizing fuel acc with
  | @close isFirst text rest ahead =>
      obtain ⟨n, rfl⟩ := Nat.exists_eq_succ_of_ne_zero (by omega : fuel ≠ 0)
      simp [foldItems, nextItem, ahead, bind, Except.bind, pure, Except.pure]
  | @first text after rest a as item others ih =>
      obtain ⟨n, rfl⟩ := Nat.exists_eq_succ_of_ne_zero (by omega : fuel ≠ 0)
      obtain ⟨c, tail, ahead, hc, -⟩ := h.ahead hbound item
      have hlt := h.length_lt hbound item
      have ha : reader (c :: tail) = .ok (a, after) := by
        rw [← ahead, h.blanks]
        exact (h.iff hbound).mpr item
      have hfuel' : after.length < n := by omega
      have hrest := ih (by omega) hfuel' (a :: acc)
      simp [foldItems, nextItem, ahead, hc, pushing, ha, hrest, bind, Except.bind, pure,
        Except.pure]
  | @more text next after rest a as comma item others ih =>
      obtain ⟨n, rfl⟩ := Nat.exists_eq_succ_of_ne_zero (by omega : fuel ≠ 0)
      have hnext := length_lt_of_skipSpace_eq comma
      obtain ⟨c, tail, ahead, hc, -⟩ := h.ahead (by omega) item
      have hlt := h.length_lt (by omega) item
      have ha : reader (c :: tail) = .ok (a, after) := by
        rw [← ahead, h.blanks]
        exact (h.iff (by omega)).mpr item
      have hfuel' : after.length < n := by omega
      have hrest := ih (by omega) hfuel' (a :: acc)
      simp [foldItems, nextItem, comma, ahead, hc, pushing, ha, hrest, bind, Except.bind, pure,
        Except.pure]

/-- The reader takes for a list what the grammar takes for its items. -/
theorem Realizes.foldItems_eq_ok_iff (h : Realizes bound reader reads) {fuel : Nat}
    {isFirst : Bool} {acc acc' : List α} {text rest : List Char} (hbound : text.length ≤ bound)
    (hfuel : text.length < fuel) :
    foldItems (pushing reader) fuel isFirst acc text = .ok (acc', rest) ↔
      ∃ as, acc' = as.reverse ++ acc ∧ Items reads isFirst text as rest := by
  constructor
  · exact Items.of_foldItems h hbound
  · rintro ⟨as, rfl, hitems⟩
    exact hitems.foldItems_eq h hbound hfuel acc

theorem Items.length_lt (h : Realizes bound reader reads) {isFirst : Bool} {as : List α}
    {text rest : List Char} (hbound : text.length ≤ bound)
    (hitems : Items reads isFirst text as rest) : rest.length < text.length := by
  induction hitems with
  | close ahead => exact length_lt_of_skipSpace_eq ahead
  | first item others ih =>
      have hlt := h.length_lt hbound item
      exact Nat.lt_trans (ih (by omega)) hlt
  | more comma item others ih =>
      have hnext := length_lt_of_skipSpace_eq comma
      have hlt := h.length_lt (by omega) item
      exact Nat.lt_trans (ih (by omega)) (Nat.lt_trans hlt hnext)

end

/-! ## Objects -/

/-- Whether the reader takes for a string what a grammar takes for one. -/
structure Spelling (strict : Bool) (spells : List Char → List Char → List Char → Prop) : Prop where
  iff : ∀ {text rest s}, stringBody strict .plain [] text = .ok (s, rest) ↔
    ∃ cs, s = String.ofList cs ∧ spells text cs rest
  length_lt : ∀ {text cs rest}, spells text cs rest → rest.length < text.length

/--
Whether a reader of members gives what a grammar derives, of texts that are not too long, and
does with it what `step` says.
-/
structure Collects {σ α : Type} (bound : Nat) (member : σ → String → Reader σ)
    (reads : String → List Char → α → List Char → Prop) (step : σ → String × α → Option σ) :
    Prop where
  iff : ∀ {acc acc' name text rest}, text.length ≤ bound →
    (member acc name text = .ok (acc', rest) ↔ ∃ next a, skipSpace text = ':' :: next ∧
      reads name next a rest ∧ step acc (name, a) = some acc')
  length_le : ∀ {name text a rest}, text.length ≤ bound → reads name text a rest →
    rest.length ≤ text.length

section

variable {σ α : Type} {strict : Bool} {spells : List Char → List Char → List Char → Prop}
  {bound : Nat} {member : σ → String → Reader σ} {reads : String → List Char → α → List Char → Prop}
  {step : σ → String × α → Option σ}

theorem key_eq_ok_iff {text rest : List Char} {name : String} :
    key strict text = .ok (name, rest) ↔
      ∃ body, text = '"' :: body ∧ stringBody strict .plain [] body = .ok (name, rest) := by
  constructor
  · intro h
    unfold key at h
    split at h
    · simp [faultAtEnd] at h
    · next c body =>
        split at h
        · next hc => exact ⟨body, by rw [hc], h⟩
        · split at h
          · simp [faultAt] at h
          · simp [faultAt] at h
  · rintro ⟨body, rfl, h⟩
    exact h

theorem keyed_eq_ok_iff {value : Reader α} {text : List Char} {result : α × List Char} :
    keyed value text = .ok result ↔
      ∃ next, skipSpace text = ':' :: next ∧ value next = .ok result := by
  rw [keyed, bind_eq_ok_iff]
  constructor
  · rintro ⟨next, hcolon, hvalue⟩
    exact ⟨next, colon_eq_ok hcolon, hvalue⟩
  · rintro ⟨next, ahead, hvalue⟩
    exact ⟨next, colon_of_skipSpace_eq ahead, hvalue⟩

theorem Member.length_lt (hspelling : Spelling strict spells)
    (h : Collects bound member reads step) {m : String × α} {text rest : List Char}
    (hbound : text.length ≤ bound) (hmember : Member spells reads m text rest) :
    rest.length < text.length := by
  cases hmember with
  | intro ahead name colon value =>
      have hbody := length_lt_of_skipSpace_eq ahead
      have hname := hspelling.length_lt name
      have hcolon := length_lt_of_skipSpace_eq colon
      have hvalue := h.length_le (by omega) value
      omega

theorem Member.iff (hspelling : Spelling strict spells) (h : Collects bound member reads step)
    {acc acc' : σ} {text rest : List Char} (hbound : text.length ≤ bound) :
    (∃ name after, key strict (skipSpace text) = .ok (name, after) ∧
        member acc name after = .ok (acc', rest)) ↔
      ∃ m, Member spells reads m text rest ∧ step acc m = some acc' := by
  constructor
  · rintro ⟨name, after, hkey, hmember⟩
    obtain ⟨body, ahead, hbody⟩ := key_eq_ok_iff.mp hkey
    obtain ⟨cs, rfl, hname⟩ := hspelling.iff.mp hbody
    have hlt := length_lt_of_skipSpace_eq ahead
    have hname' := hspelling.length_lt hname
    obtain ⟨next, a, colon, hvalue, hstep⟩ := (h.iff (by omega)).mp hmember
    exact ⟨_, .intro ahead hname colon hvalue, hstep⟩
  · rintro ⟨m, hmember, hstep⟩
    cases hmember with
    | @intro text body cs after next rest a ahead name colon value =>
        have hlt := length_lt_of_skipSpace_eq ahead
        have hname := hspelling.length_lt name
        refine ⟨String.ofList cs, after, ?_, ?_⟩
        · exact key_eq_ok_iff.mpr ⟨body, ahead, hspelling.iff.mpr ⟨cs, rfl, name⟩⟩
        · exact (h.iff (by omega)).mpr ⟨next, a, colon, value, hstep⟩

theorem Members.of_foldMembers (hspelling : Spelling strict spells)
    (h : Collects bound member reads step) {fuel : Nat} {isFirst : Bool} {acc acc' : σ}
    {text rest : List Char} (hbound : text.length ≤ bound)
    (hfold : foldMembers strict member fuel isFirst acc text = .ok (acc', rest)) :
    ∃ ms, ms.foldlM step acc = some acc' ∧ Members spells reads isFirst text ms rest := by
  induction fuel generalizing isFirst acc text with
  | zero => simp [foldMembers, faultAtEnd] at hfold
  | succ fuel ih =>
      rw [foldMembers] at hfold
      split at hfold
      · simp [faultAtEnd] at hfold
      · next c tail ahead =>
          split at hfold
          · next hc =>
              cases hfold
              exact ⟨[], rfl, .close (hc ▸ ahead)⟩
          · split at hfold
            · next hfirst =>
                subst hfirst
                obtain ⟨⟨name, after⟩, hkey, hbehind⟩ := bind_eq_ok_iff.mp hfold
                obtain ⟨⟨acc₁, next⟩, hmember, hrest⟩ := bind_eq_ok_iff.mp hbehind
                rw [← ahead] at hkey
                obtain ⟨m, hm, hstep⟩ :=
                  (Member.iff hspelling h hbound).mp ⟨name, after, hkey, hmember⟩
                have hlt := hm.length_lt hspelling h (by omega)
                obtain ⟨ms, hms, hothers⟩ := ih (by omega) hrest
                exact ⟨m :: ms, by simp [hstep, hms], .first hm hothers⟩
            · next hfirst =>
                rw [Bool.not_eq_true] at hfirst
                subst hfirst
                split at hfold
                · next hc =>
                    obtain ⟨⟨name, after⟩, hkey, hbehind⟩ := bind_eq_ok_iff.mp hfold
                    obtain ⟨⟨acc₁, next⟩, hmember, hrest⟩ := bind_eq_ok_iff.mp hbehind
                    have hcomma := length_lt_of_skipSpace_eq (hc ▸ ahead)
                    obtain ⟨m, hm, hstep⟩ :=
                      (Member.iff hspelling h (by omega)).mp ⟨name, after, hkey, hmember⟩
                    have hlt := hm.length_lt hspelling h (by omega)
                    obtain ⟨ms, hms, hothers⟩ := ih (by omega) hrest
                    exact ⟨m :: ms, by simp [hstep, hms], .more (hc ▸ ahead) hm hothers⟩
                · simp [faultAt] at hfold

theorem Members.foldMembers_eq (hspelling : Spelling strict spells)
    (h : Collects bound member reads step) {isFirst : Bool} {ms : List (String × α)}
    {text rest : List Char} (hmembers : Members spells reads isFirst text ms rest) {fuel : Nat}
    (hbound : text.length ≤ bound) (hfuel : text.length < fuel) {acc acc' : σ}
    (hstep : ms.foldlM step acc = some acc') :
    foldMembers strict member fuel isFirst acc text = .ok (acc', rest) := by
  induction hmembers generalizing fuel acc with
  | close ahead =>
      obtain ⟨n, rfl⟩ := Nat.exists_eq_succ_of_ne_zero (by omega : fuel ≠ 0)
      cases hstep
      simp [foldMembers, ahead]
  | @first text after rest m ms hmember others ih =>
      obtain ⟨n, rfl⟩ := Nat.exists_eq_succ_of_ne_zero (by omega : fuel ≠ 0)
      rw [List.foldlM_cons, Option.bind_eq_bind, Option.bind_eq_some_iff] at hstep
      obtain ⟨acc₁, hfirst, hothers⟩ := hstep
      have hlt := hmember.length_lt hspelling h (by omega)
      have hfuel' : after.length < n := by omega
      have hrest := ih (by omega) hfuel' hothers
      obtain ⟨name, tail, hkey, htail⟩ :=
        (Member.iff hspelling h hbound).mpr ⟨m, hmember, hfirst⟩
      obtain ⟨body, ahead, -⟩ := key_eq_ok_iff.mp hkey
      rw [ahead] at hkey
      simp [foldMembers, ahead, hkey, htail, hrest, bind, Except.bind]
  | @more text next after rest m ms comma hmember others ih =>
      obtain ⟨n, rfl⟩ := Nat.exists_eq_succ_of_ne_zero (by omega : fuel ≠ 0)
      rw [List.foldlM_cons, Option.bind_eq_bind, Option.bind_eq_some_iff] at hstep
      obtain ⟨acc₁, hfirst, hothers⟩ := hstep
      have hnext := length_lt_of_skipSpace_eq comma
      have hlt := hmember.length_lt hspelling h (by omega)
      have hfuel' : after.length < n := by omega
      have hrest := ih (by omega) hfuel' hothers
      obtain ⟨name, tail, hkey, htail⟩ :=
        (Member.iff hspelling h (by omega)).mpr ⟨m, hmember, hfirst⟩
      simp [foldMembers, comma, hkey, htail, hrest, bind, Except.bind]

/-- The reader takes for an object what the grammar takes for its members. -/
theorem Collects.foldMembers_eq_ok_iff (hspelling : Spelling strict spells)
    (h : Collects bound member reads step) {fuel : Nat} {isFirst : Bool} {acc acc' : σ}
    {text rest : List Char} (hbound : text.length ≤ bound) (hfuel : text.length < fuel) :
    foldMembers strict member fuel isFirst acc text = .ok (acc', rest) ↔
      ∃ ms, ms.foldlM step acc = some acc' ∧ Members spells reads isFirst text ms rest := by
  constructor
  · exact Members.of_foldMembers hspelling h hbound
  · rintro ⟨ms, hstep, hmembers⟩
    exact hmembers.foldMembers_eq hspelling h hbound hfuel hstep

theorem Members.length_lt (hspelling : Spelling strict spells)
    (h : Collects bound member reads step) {isFirst : Bool} {ms : List (String × α)}
    {text rest : List Char} (hbound : text.length ≤ bound)
    (hmembers : Members spells reads isFirst text ms rest) : rest.length < text.length := by
  induction hmembers with
  | close ahead => exact length_lt_of_skipSpace_eq ahead
  | first hmember others ih =>
      have hlt := hmember.length_lt hspelling h hbound
      exact Nat.lt_trans (ih (by omega)) hlt
  | more comma hmember others ih =>
      have hnext := length_lt_of_skipSpace_eq comma
      have hlt := hmember.length_lt hspelling h (by omega)
      exact Nat.lt_trans (ih (by omega)) (Nat.lt_trans hlt hnext)

end

end Json

end Marginalia
