import Marginalia.Proofs.Chat.Endpoint
import Marginalia.Proofs.CommandLine.Visible

/-!
# Where requests go

Whatever a run posts goes to the endpoint of the service that its settings name, at the origin
of the base of that service.  In the clear it goes to this machine only.
-/

namespace Marginalia

namespace CommandLine

open Json (bind_eq_ok_iff)

/-! ## What a run posts -/

def service? (w : Surroundings) (words : List String) : Option Chat.Service := do
  let invocation ← (parse words).toOption
  let settings ← (loadSettings w.logged invocation.config).toOption
  (settings.service w.environment).toOption

theorem RangeReview.service?_eq {w : Surroundings} {words : List String}
    (r : RangeReview w words) : service? w words = some r.service := by
  simp only [service?, r.parsed, r.configured, r.served, Except.toOption, Option.bind_eq_bind,
    Option.bind_some]

theorem mapError_eq_ok_iff {ε ε' α : Type} {x : Except ε α} {f : ε → ε'} {a : α} :
    x.mapError f = .ok a ↔ x = .ok a := by
  cases x with
  | error e => simp [Except.mapError]
  | ok b => simp [Except.mapError]

theorem serves_of_prepare {w : Surroundings} {settings : Settings} {file : String}
    {visible : Option LineRange} {source : RequirementsSource} {d : Desk}
    (h : prepare w settings file visible source = .ok d) :
    settings.service w.environment = .ok d.service ∧ d.service.endpoint = .ok d.endpoint ∧
      (d.isReached = true → d.service.refusal? d.endpoint = none) := by
  unfold prepare at h
  obtain ⟨requirements, -, h⟩ := bind_eq_ok_iff.mp h
  obtain ⟨document, -, h⟩ := bind_eq_ok_iff.mp h
  obtain ⟨service, hservice, h⟩ := bind_eq_ok_iff.mp h
  obtain ⟨endpoint, hendpoint, h⟩ := bind_eq_ok_iff.mp h
  cases h
  refine ⟨mapError_eq_ok_iff.mp hservice, mapError_eq_ok_iff.mp hendpoint, fun hreached => ?_⟩
  have hnone := (Bool.and_eq_true_iff.mp hreached).1
  exact Option.isNone_iff_eq_none.mp hnone

namespace Desk

variable (d : Desk)

theorem exists_posts_annotate (severity : Option Severity) :
    ∃ x, (d.annotate severity).posts = d.posts x :=
  ⟨(d.review severity).1.exchange, rfl⟩

theorem exists_posts_converse (s : Session) (a : Annotation) (words : List String) :
    ∃ x, (d.converse s a words).posts = d.posts x := by
  unfold converse
  dsimp only
  split
  · exact ⟨s.exchange, rfl⟩
  · split
    · exact ⟨_, rfl⟩
    · exact ⟨_, rfl⟩

theorem exists_posts_ask (severity : Severity) (line : Nat) (words : List String) :
    ∃ x, (d.ask severity line words).posts = d.posts x := by
  unfold ask
  dsimp only
  split
  · exact ⟨(d.review (some severity)).1.exchange, rfl⟩
  · split
    · exact ⟨(d.review (some severity)).1.exchange, rfl⟩
    · exact exists_posts_converse d _ _ _

variable {d}

theorem exists_of_mem_posts {x : Model.Exchange} {post : Chat.Post} (h : post ∈ d.posts x) :
    d.isReached = true ∧ ∃ messages, post = d.service.post d.endpoint messages := by
  unfold posts at h
  split at h
  · next hreached =>
      obtain ⟨request, -, rfl⟩ := List.mem_map.mp h
      exact ⟨hreached, request.messages, rfl⟩
  · cases h

end Desk

theorem exists_of_mem_orFault {x : Except RunFault Performance} {post : Chat.Post}
    (h : post ∈ (orFault x).posts) : ∃ p, x = .ok p ∧ post ∈ p.posts := by
  cases x with
  | error fault => cases h
  | ok p => exact ⟨p, rfl, h⟩

theorem exists_of_mem_performed {w : Surroundings} {config : Option String} {file : String}
    {visible : Option LineRange} {source : RequirementsSource} {perform : Desk → Performance}
    (hperform : ∀ d, ∃ x, (perform d).posts = Desk.posts d x) {post : Chat.Post}
    (h : post ∈ (orFault do
      let settings ← (loadSettings w config).mapError .settings
      let desk ← prepare w settings file visible source
      return perform desk).posts) :
    ∃ settings d x, loadSettings w config = .ok settings ∧
      prepare w settings file visible source = .ok d ∧ post ∈ Desk.posts d x := by
  obtain ⟨p, hp, hmem⟩ := exists_of_mem_orFault h
  obtain ⟨settings, hsettings, hp⟩ := bind_eq_ok_iff.mp hp
  obtain ⟨d, hd, hp⟩ := bind_eq_ok_iff.mp hp
  cases hp
  obtain ⟨x, hx⟩ := hperform d
  exact ⟨settings, d, x, mapError_eq_ok_iff.mp hsettings, hd, hx ▸ hmem⟩

theorem exists_of_mem_carryOut {w : Surroundings} {invocation : Invocation} {post : Chat.Post}
    (h : post ∈ (carryOut w invocation).posts) :
    ∃ settings file visible source d x, loadSettings w invocation.config = .ok settings ∧
      prepare w settings file visible source = .ok d ∧ post ∈ Desk.posts d x := by
  unfold carryOut at h
  split at h
  · cases h
  · obtain ⟨settings, d, x, hfound⟩ :=
      exists_of_mem_performed (fun d => d.exists_posts_annotate _) h
    exact ⟨settings, _, _, _, d, x, hfound⟩
  · obtain ⟨settings, d, x, hfound⟩ :=
      exists_of_mem_performed (fun d => d.exists_posts_ask _ _ _) h
    exact ⟨settings, _, _, _, d, x, hfound⟩

/-- What a run posts is a request to the endpoint of its service that is not refused. -/
theorem exists_of_mem_run {w : Surroundings} {words : List String} {post : Chat.Post}
    (h : post ∈ (run w words).posts) :
    ∃ s e messages, service? w words = some s ∧ s.endpoint = .ok e ∧ s.refusal? e = none ∧
      post = s.post e messages := by
  unfold run at h
  split at h
  · next reason _ => cases reason <;> cases h
  · next invocation hparse =>
      obtain ⟨settings, file, visible, source, d, x, hsettings, hprepare, hmem⟩ :=
        exists_of_mem_carryOut h
      obtain ⟨hservice, hendpoint, hallowed⟩ := serves_of_prepare hprepare
      obtain ⟨hreached, messages, hpost⟩ := Desk.exists_of_mem_posts hmem
      refine ⟨d.service, d.endpoint, messages, ?_, hendpoint, hallowed hreached, hpost⟩
      have hloaded : loadSettings w.logged invocation.config = .ok settings := hsettings
      have hserved : settings.service w.environment = .ok d.service := hservice
      simp only [service?, hparse, hloaded, hserved, Except.toOption, Option.bind_eq_bind,
        Option.bind_some]

/-! ## The origin -/

open Chat.Service (completions localHosts)

/-- What holds of the endpoint of a service whose base has a path. -/
structure KeepsOrigin (s : Chat.Service) (p : List Char) (e : Url) : Prop where
  scheme : e.scheme = s.base.scheme
  authority : e.authority = s.base.authority
  path : e.path = .rooted (Url.closed p ++ completions)
  query : e.query = none
  fragment : e.fragment = none
  /-- It is what reading the path of the base, with a slash, and then the relative one gives. -/
  read : e = (s.base.setPath (Url.closed p)).resolve completions
  /-- The bases of services that have it too differ at most in what ends the path or follows it. -/
  shared : ∀ t : Chat.Service, t.endpoint = .ok e ↔
    t.base.scheme = s.base.scheme ∧ t.base.authority = s.base.authority ∧
      ∃ q, t.base.path = .rooted q ∧ Url.closed q = Url.closed p
  /-- In the clear a request is sent to this machine only. -/
  clear : s.refusal? e = none → e.scheme = "http".toList →
    ∃ host ∈ localHosts, e.host? = some host
  /-- Runs that use the service post such requests and no others. -/
  posted : ∀ w words, service? w words = some s →
    ∀ post ∈ (run w words).posts, post.url = e ∧ s.refusal? e = none

/-- The endpoint of a service whose base is an address of the web keeps to the origin of it. -/
theorem endpoint_keepsOrigin {s : Chat.Service} {text : String}
    (hread : Url.parse text = .ok s.base) (hweb : s.base.IsOfWeb) :
    ∃ p e, s.base.path = .rooted p ∧ s.endpoint = .ok e ∧ KeepsOrigin s p e := by
  have hbase := hweb.isSettled hread
  obtain ⟨p, hpath, husual⟩ := hbase.path
  have hendpoint := Chat.Service.endpoint_of_rooted hweb.isFileScheme hpath
  refine ⟨p, Chat.Service.below s.base p, hpath, hendpoint, ?_⟩
  constructor
  case scheme => rfl
  case authority => rfl
  case path => rfl
  case query => rfl
  case fragment => rfl
  case read => exact Chat.Service.below_eq_resolve hweb husual
  case shared => exact fun t => Chat.Service.endpoint_eq_iff hweb p
  case clear =>
    intro hallowed hscheme
    have hallows := Chat.Service.allowsScheme_of_refusal? hallowed
    rw [hscheme] at hallows
    have hlocal : s.isLocal = true := hallows
    exact Chat.Service.exists_host_of_isLocal hbase hlocal
  case posted =>
    intro w words hservice post hmem
    obtain ⟨s', e, messages, hservice', hendpoint', hallowed, rfl⟩ := exists_of_mem_run hmem
    obtain rfl := Option.some.inj (hservice.symm.trans hservice')
    obtain rfl := Except.ok.inj (hendpoint.symm.trans hendpoint')
    exact ⟨rfl, hallowed⟩

/-- A service on this machine: with a slash and more behind its path it has the same endpoint. -/
theorem endpoint_keepsOrigin_loopback :
    Url.parse "http://[::1]/v1" = .ok pairService.base ∧
      (∃ t : Chat.Service, Url.parse "http://[::1]/v1/?a#b" = .ok t.base ∧
        t.endpoint = .ok pairEndpoint) ∧
      (∃ host ∈ localHosts, pairEndpoint.host? = some host) ∧
      ∃ post ∈ (run (pairSurroundings .visible) pairWords).posts, post.url = pairEndpoint := by
  have hread : Url.parse "http://[::1]/v1" = .ok pairService.base :=
    eq_ok_of_toOption (by decide +kernel)
  obtain ⟨p, e, hp, hendpoint, hkeeps⟩ := endpoint_keepsOrigin hread (.inl rfl)
  obtain rfl : p = "/v1".toList := (Url.Path.rooted.inj hp).symm
  obtain rfl : e = pairEndpoint :=
    Except.ok.inj (hendpoint.symm.trans (pairReview .visible).addressed)
  let base : Url := { loopback "/v1/" with query := some ['a'], fragment := some ['b'] }
  have hslashed : Url.parse "http://[::1]/v1/?a#b" = .ok base :=
    eq_ok_of_toOption (by decide +kernel)
  obtain ⟨choices, reviews, hposts, -, hreviews, -, hasked⟩ := (pairReview .visible).exists_posts
  obtain ⟨fileContext, hmem⟩ := exists_mem_posts hposts hreviews (hasked (.inl rfl))
  refine ⟨hread, ⟨{ base, model := "" }, hslashed, ?_⟩, ?_, _, hmem, ?_⟩
  · rw [hkeeps.shared]
    exact ⟨rfl, rfl, "/v1/".toList, rfl, rfl⟩
  · exact hkeeps.clear (pairReview .visible).allowed rfl
  · exact (hkeeps.posted _ _ (pairReview .visible).service?_eq _ hmem).1

end CommandLine

end Marginalia
