import Marginalia.Chat.Service
import Marginalia.Proofs.Url.Addresses

/-!
# Endpoints of services

Messages are posted to an address at the origin of the base of the service, below its path.
Only on this machine is that done in the clear.
-/

namespace Marginalia

namespace Chat

namespace Service

open Url (closed)

def completions : List Char := "chat/completions".toList

def below (base : Url) (path : List Char) : Url :=
  { base with path := .rooted (closed path ++ completions), query := none, fragment := none }

theorem endpoint_of_rooted {s : Service} {p : List Char}
    (hfile : Url.isFileScheme s.base.scheme = false) (hpath : s.base.path = .rooted p) :
    s.endpoint = .ok (below s.base p) := by
  have hjoin : Url.join { s.base with path := .rooted (closed p) } "chat/completions" =
      .ok (below s.base p) := by
    rw [Url.join]
    dsimp only
    rw [hfile, Url.follow_closed]
    rfl
  rw [endpoint, Url.withTrailingSlash_of_rooted hfile hpath, hjoin]

theorem exists_rooted_of_endpoint {s : Service} {e : Url} (h : s.endpoint = .ok e) :
    ∃ p, s.base.path = .rooted p := by
  cases hpath : s.base.path with
  | rooted p => exact ⟨p, rfl⟩
  | plain text =>
      rw [endpoint, Url.withTrailingSlash, hpath] at h
      dsimp only at h
      rw [Url.join, hpath] at h
      cases h

theorem scheme_of_endpoint {s : Service} {e : Url} (h : s.endpoint = .ok e) :
    e.scheme = s.base.scheme := by
  obtain ⟨p, hpath⟩ := exists_rooted_of_endpoint h
  rw [endpoint, Url.withTrailingSlash, hpath] at h
  cases h
  rfl

/--
Services have the same endpoint just when their bases differ at most in a slash at the end of the
path and in what stands behind it.
-/
theorem endpoint_eq_iff {s t : Service} (hweb : s.base.IsOfWeb) (p : List Char) :
    t.endpoint = .ok (below s.base p) ↔
      t.base.scheme = s.base.scheme ∧ t.base.authority = s.base.authority ∧
        ∃ q, t.base.path = .rooted q ∧ closed q = closed p := by
  constructor
  · intro h
    have hscheme : t.base.scheme = s.base.scheme := (scheme_of_endpoint h).symm
    obtain ⟨q, hq⟩ := exists_rooted_of_endpoint h
    rw [endpoint_of_rooted (hscheme ▸ hweb.isFileScheme) hq] at h
    have hbelow := Except.ok.inj h
    have hauthority : (below t.base q).authority = (below s.base p).authority :=
      congrArg Url.authority hbelow
    have hrooted : (below t.base q).path = (below s.base p).path := congrArg Url.path hbelow
    exact ⟨hscheme, hauthority, q, hq, List.append_cancel_right (Url.Path.rooted.inj hrooted)⟩
  · rintro ⟨hscheme, hauthority, q, hq, hclosed⟩
    rw [endpoint_of_rooted (hscheme ▸ hweb.isFileScheme) hq, below, below, hclosed, hscheme,
      hauthority]

/-- Reading the path of a base with a slash, and then the relative path, gives the endpoint. -/
theorem below_eq_resolve {base : Url} {p : List Char} (hweb : base.IsOfWeb)
    (husual : Url.IsUsual p) :
    below base p = (base.setPath (closed p)).resolve completions := by
  obtain ⟨before, hclosed⟩ := husual.exists_closed_eq_dirs
  let first := Url.Segment.ofChecked "chat".toList (by decide) (by decide)
  let last := Url.Segment.ofChecked "completions".toList (by decide) (by decide)
  have hspell : completions = Url.Segment.spell [first] last := by decide
  have hresolved := Url.resolve_spell (u := { base with path := .rooted (closed p) }) hweb
    (congrArg Url.Path.rooted hclosed) [first] last
  rw [← hspell, ← hclosed] at hresolved
  rw [Url.setPath_closed hweb husual]
  exact hresolved.symm

/-! ## Requests in the clear -/

def localHosts : List String := ["localhost", "127.0.0.1", "[::1]"]

theorem exists_host_of_isLocal {s : Service} (hbase : s.base.IsSettled)
    (h : s.isLocal = true) : ∃ host ∈ localHosts, s.base.host? = some host := by
  obtain ⟨a, ha, hcolon⟩ := hbase.authority
  have hhost : s.base.host? = some (String.ofList a.host) := by
    rw [Url.host?, ha]
    rfl
  rw [isLocal, hhost] at h
  refine ⟨String.ofList a.host, ?_, hhost⟩
  simp only [localHosts, List.contains_iff_mem, List.mem_cons, List.not_mem_nil, or_false] at h ⊢
  rcases h with h | h | h | h
  · exact .inl h
  · exact .inr (.inl h)
  · exact .inr (.inr h)
  · have hchars : a.host = "::1".toList := by
      rw [← h, String.toList_ofList]
    rw [hchars] at hcolon
    exact absurd rfl hcolon

/-- What is not refused goes out by a scheme that the service may be reached by. -/
theorem allowsScheme_of_refusal? {s : Service} {e : Url} (h : s.refusal? e = none) :
    s.allowsScheme (String.ofList e.scheme) = true := by
  simp only [refusal?] at h
  split at h
  · cases h
  · split at h
    · cases h
    · split at h
      · cases h
      · next hscheme => simpa using hscheme

end Service

end Chat

end Marginalia
