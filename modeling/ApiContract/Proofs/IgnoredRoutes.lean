import ApiContract.Proofs.NormalUris
import ApiContract.Proofs.UnusedOverrides
import Mathlib.Algebra.Order.BigOperators.Group.List
import Mathlib.Algebra.Order.Group.Nat

namespace ApiContract

namespace Uri

open Text

theorem normalizeSegment_eq_self {segment : List Char}
    (h : placeholder? (normalizeSegment segment) = none) : normalizeSegment segment = segment := by
  have hnormal := normal_normalizeSegment segment
  generalize normalizeSegment segment = form at h hnormal
  cases hnormal with
  | colon name | star name | braces name =>
    exact absurd (h.symm.trans (placeholder?_eq_some.mpr rfl)) nofun
  | plain => rfl

theorem map_normalizeSegment {uri : String} (h : placeholders (normalize uri) = []) :
    (segments uri).map normalizeSegment = segments uri := by
  rw [placeholders_normalize, List.map_eq_nil_iff, List.filterMap_eq_nil_iff] at h
  refine (List.map_congr_left fun segment hsegment => ?_).trans (List.map_id _)
  exact normalizeSegment_eq_self (h _ (List.mem_map_of_mem hsegment))

theorem strip_eq_of_normalize_eq {uri other : String} (h : normalize uri = normalize other)
    (hnone : placeholders (normalize uri) = []) :
    strip isSlash uri.toList = strip isSlash other.toList := by
  have hsegments : segments uri = segments other := by
    rw [← map_normalizeSegment hnone, normalize_eq_iff.mp h, map_normalizeSegment (h ▸ hnone)]
  rw [← join_cutAt '/' (strip isSlash uri.toList), ← join_cutAt '/' (strip isSlash other.toList)]
  exact congrArg (join ['/']) hsegments

/-- The placeholders of a name, written with asterisks before it; all other segments stay. -/
def starred (stars : Nat) (name segment : List Char) : List Char :=
  if normalizeSegment segment = braced name then braced (List.replicate stars '*' ++ name)
  else segment

theorem respelled_starred {name : List Char} (h : ¬ Marked name) (stars : Nat)
    (segment : List Char) : Respelled segment (starred stars name segment) := by
  rw [starred]
  split
  next hform =>
    have hspells : Spells name (braced (List.replicate stars '*' ++ name ++ [])) :=
      .braces (fun _ hc => List.eq_of_mem_replicate hc) nofun
    rw [List.append_nil] at hspells
    exact .inr ⟨name, h, (normalizeSegment_eq_braced_iff h).mp hform, hspells⟩
  next => exact .inl rfl

theorem starred_eq_nil {stars : Nat} {name segment : List Char}
    (h : starred stars name segment = []) : segment = [] := by
  rw [starred] at h
  split at h
  · cases h
  · exact h

theorem not_mem_starred {stars : Nat} {name segment : List Char} (h : '/' ∉ segment) :
    '/' ∉ starred stars name segment := by
  rw [starred]
  split
  next hform =>
    have hname : '/' ∉ braced name := hform ▸ not_mem_normalizeSegment h
    refine not_mem_braced (by decide) (by decide) fun hm => ?_
    obtain hm | hm := List.mem_append.mp hm
    · exact absurd (List.eq_of_mem_replicate hm) (by decide)
    · exact hname (List.mem_cons_of_mem _ (List.mem_append_left _ hm))
  next => exact h

theorem length_le_length_join {separator piece : List Char} {pieces : List (List Char)}
    (h : piece ∈ pieces) : piece.length ≤ (join separator pieces).length := by
  induction pieces with
  | nil => cases h
  | cons first pieces ih =>
    cases pieces with
    | nil => exact (congrArg List.length (List.mem_singleton.mp h)).le
    | cons next pieces =>
      rw [join, List.length_append, List.length_append]
      obtain rfl | h := List.mem_cons.mp h
      · omega
      · have hrest := ih h
        omega

/-- A path with a placeholder can be written at any length. -/
theorem exists_longer {uri : String}
    (h : ∃ name ∈ placeholders (normalize uri), ¬ Marked name.toList) (n : Nat) :
    ∃ other, normalize other = normalize uri ∧ Route.trimmed other = other ∧ n ≤ other.length := by
  obtain ⟨text, htext, hname⟩ := h
  rw [placeholders_normalize] at htext
  obtain ⟨name, hmem, rfl⟩ := List.mem_map.mp htext
  rw [String.toList_ofList] at hname
  obtain ⟨_, hform, hplaceholder⟩ := List.mem_filterMap.mp hmem
  obtain ⟨segment, hsegment, rfl⟩ := List.mem_map.mp hform
  rw [placeholder?_eq_some] at hplaceholder
  let pieces := (segments uri).map (starred n name)
  have hclosed : Closed pieces := (closed_cutAt (strip_strip _)).map fun _ => starred_eq_nil
  have hslash : ∀ piece ∈ pieces, '/' ∉ piece := by
    intro piece hpiece
    obtain ⟨written, hwritten, rfl⟩ := List.mem_map.mp hpiece
    exact not_mem_starred (not_mem_of_mem_segments hwritten)
  refine ⟨String.ofList (join ['/'] pieces), (normalize_eq_of_respelled ?_).symm, ?_, ?_⟩
  · have hpieces : segments (String.ofList (join ['/'] pieces)) = pieces := by
      rw [segments, String.toList_ofList]
      exact hclosed.cutAt_strip_join (by simp [pieces, segments, cutAt_ne_nil]) hslash
    rw [hpieces, List.forall₂_map_right_iff]
    exact List.forall₂_same.mpr fun written _ => respelled_starred hname n written
  · rw [Route.trimmed, stripped, String.toList_ofList, hclosed.strip_join hslash]
  · have hlong : n ≤ (starred n name segment).length := by
      rw [starred, if_pos hplaceholder]
      simp [braced]
      omega
    rw [String.length_ofList]
    exact hlong.trans (length_le_length_join (List.mem_map_of_mem hsegment))

end Uri

namespace Route

/-- The entries of a configuration for a path, however it is written, have no slashes around
them. -/
def EntriesTrimmed (config : Config) (uri : String) : Prop :=
  ∀ entry ∈ config.ignoredUris, trimmed entry = trimmed uri → trimmed entry = entry

theorem isIgnored_eq {config : Config} {route : Route} (h : EntriesTrimmed config route.uri) :
    route.isIgnored config = config.ignoresUri (trimmed route.uri) := by
  rw [isIgnored, Bool.or_eq_right_iff_imp, Config.ignoresUri, Config.ignoresUri]
  intro hwritten
  rwa [h route.uri (List.contains_iff_mem.mp hwritten) rfl]

theorem trimmed_eq_iff {uri other : String} : trimmed uri = trimmed other ↔
    Text.strip Uri.isSlash uri.toList = Text.strip Uri.isSlash other.toList :=
  String.ofList_inj

theorem exists_not_ignored (config : Config) {route : Route}
    (h : ∃ name ∈ Uri.placeholders (Uri.normalize route.uri), ¬ Uri.Marked name.toList) : ∃ uri,
    Uri.normalize uri = Uri.normalize route.uri ∧ isIgnored config { route with uri } = false := by
  obtain ⟨uri, hnormal, htrimmed, hlong⟩ :=
    Uri.exists_longer h ((config.ignoredUris.map String.length).sum + 1)
  have hfree : config.ignoresUri uri = false := by
    rw [Config.ignoresUri, List.contains_eq_mem, decide_eq_false_iff_not]
    intro hentry
    have hshort := List.le_sum_of_mem (List.mem_map_of_mem (f := String.length) hentry)
    omega
  refine ⟨uri, hnormal, ?_⟩
  rw [isIgnored, htrimmed, hfree, Bool.or_self]

end Route

namespace Assembler

variable (a : Assembler)

theorem mem_endpoints_iff {routes : List Route} {e : Endpoint} :
    e ∈ (a.endpoints routes {}).1 ↔ ∃ route ∈ routes,
        route.isIgnored a.config = false ∧ e ∈ route.endpoints a.config (a.handlerOf route) := by
  rw [endpoints, (a.endpointsFrom_spec _ a.knows_fresh).1, endpointsOf, List.mem_flatMap]
  simp [considered, and_assoc]

/-- What a configuration leaves out it leaves out however many slashes are around it, if its entry
has none. A path without placeholders is left out for all routes on it or for none, while one with
an unmarked placeholder is never left out in all its spellings. -/
theorem ignored_as_written : (∀ first second : Route, Route.EntriesTrimmed a.config first.uri →
      Route.trimmed first.uri = Route.trimmed second.uri ∨
        Uri.normalize first.uri = Uri.normalize second.uri ∧
          Uri.placeholders (Uri.normalize first.uri) = [] →
      first.isIgnored a.config = second.isIgnored a.config) ∧
    (∀ (routes : List Route) (uri : String),
      Route.EntriesTrimmed a.config uri → Uri.placeholders (Uri.normalize uri) = [] →
        (∀ e ∈ (a.endpoints routes {}).1, e.uri ≠ Uri.normalize uri) ∨ ∀ route ∈ routes,
            Uri.normalize route.uri = Uri.normalize uri → ∀ verb ∈ route.verbs a.config,
                route.endpoint a.config (a.handlerOf route) verb ∈ (a.endpoints routes {}).1) ∧
    ∀ route : Route,
      (∃ name ∈ Uri.placeholders (Uri.normalize route.uri), ¬ Uri.Marked name.toList) →
        ∃ uri, Uri.normalize uri = Uri.normalize route.uri ∧
          Route.isIgnored a.config { route with uri } = false := by
  have hpair : ∀ first second : Route,
      Route.EntriesTrimmed a.config first.uri → Route.trimmed first.uri = Route.trimmed second.uri →
        first.isIgnored a.config = second.isIgnored a.config := by
    intro first second hentries htrimmed
    have hother : Route.EntriesTrimmed a.config second.uri := fun entry hentry heq =>
      hentries entry hentry (heq.trans htrimmed.symm)
    rw [Route.isIgnored_eq hentries, Route.isIgnored_eq hother, htrimmed]
  have hplain : ∀ {uri other : String}, Uri.normalize uri = Uri.normalize other →
      Uri.placeholders (Uri.normalize uri) = [] → Route.trimmed uri = Route.trimmed other :=
    fun hnormal hnone => Route.trimmed_eq_iff.mpr (Uri.strip_eq_of_normalize_eq hnormal hnone)
  refine ⟨fun first second hentries h => ?_, fun routes uri hentries hnone => ?_,
    fun route => Route.exists_not_ignored a.config⟩
  · exact hpair first second hentries (h.elim id fun ⟨hnormal, hnone⟩ => hplain hnormal hnone)
  by_cases hshown : ∃ e ∈ (a.endpoints routes {}).1, e.uri = Uri.normalize uri
  · right
    obtain ⟨e, he, hkey⟩ := hshown
    obtain ⟨kept, -, hkept, he⟩ := a.mem_endpoints_iff.mp he
    obtain ⟨huri, -, -⟩ := Route.mem_endpoints he
    have hkeptUri : Route.trimmed uri = Route.trimmed kept.uri :=
      hplain (hkey.symm.trans huri) hnone
    intro route hroute hnormal verb hverb
    have hrouteUri : Route.trimmed uri = Route.trimmed route.uri := hplain hnormal.symm hnone
    have hentries' : Route.EntriesTrimmed a.config route.uri := fun entry hentry heq =>
      hentries entry hentry (heq.trans hrouteUri.symm)
    have hconsidered : route.isIgnored a.config = false := by
      rw [hpair route kept hentries' (hrouteUri.symm.trans hkeptUri), hkept]
    exact a.mem_endpoints_iff.mpr ⟨route, hroute, hconsidered, List.mem_map.mpr ⟨verb, hverb, rfl⟩⟩
  · exact .inl fun e he hkey => hshown ⟨e, he, hkey⟩

def ignoring : Assembler :=
  { ofTypeless with config.ignoredUris := ["health", "/status/", "users/:id"] }

theorem ignored_as_written_health : Route.EntriesTrimmed ignoring.config "/health/" ∧
    (toNothing "/health/" "GET").isIgnored ignoring.config =
      (toNothing "health" "GET").isIgnored ignoring.config := by
  have hentries : Route.EntriesTrimmed ignoring.config "/health/" := by
    unfold Route.EntriesTrimmed
    decide
  refine ⟨hentries, ignoring.ignored_as_written.1 (toNothing "/health/" "GET")
      (toNothing "health" "GET") hentries (.inr ⟨?_, ?_⟩)⟩
  · decide
  · decide

/-- A placeholder is left out in one of its spellings only. -/
theorem not_ignored_together : ¬ ∀ (config : Config) (first second : Route),
    Uri.normalize first.uri = Uri.normalize second.uri →
      first.isIgnored config = second.isIgnored config := by
  intro h
  have hsame := h { ignoredUris := ["users/:id"] } (toNothing "users/:id" "GET")
    (toNothing "users/\x7bid\x7d" "GET") (by decide)
  exact absurd hsame (by decide)

end Assembler

end ApiContract
