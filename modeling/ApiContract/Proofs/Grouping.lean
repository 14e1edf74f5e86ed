import ApiContract.Assembly
import ApiContract.Proofs.Table

namespace ApiContract

theorem Verb.text_injective {v w : Verb} (h : v.text = w.text) : v = w := by
  revert h
  cases v <;> cases w <;> decide

/-- The order in which a document shows endpoints: by path, then by verb. -/
def Endpoint.Before (e f : Endpoint) : Prop :=
  e.uri < f.uri ∨ e.uri = f.uri ∧ e.verb.text < f.verb.text

theorem Table.insert_ne_nil {α : Type} (table : Table α) (key : String) (value : α) :
    table.insert key value ≠ [] := by
  cases table with
  | nil => simp [Table.insert]
  | cons entry rest =>
    simp only [Table.insert]
    split
    · simp
    · split <;> simp

namespace Assembler

def addEndpoint (groups : Table (Table Endpoint)) (e : Endpoint) : Table (Table Endpoint) :=
  groups.insert e.uri (Table.insert ((groups.get? e.uri).getD []) e.verb.text e)

def endpoint? (groups : Table (Table Endpoint)) (uri : String) (verb : Verb) : Option Endpoint :=
  (groups.get? uri).bind fun endpoints => endpoints.get? verb.text

/-- Endpoints stand under their own path and verb, and no path is without endpoints. -/
structure Grouped (groups : Table (Table Endpoint)) : Prop where
  sorted : groups.Sorted
  sorted_inside : ∀ uri endpoints, (uri, endpoints) ∈ groups → Table.Sorted endpoints
  ne_nil : ∀ uri endpoints, (uri, endpoints) ∈ groups → endpoints ≠ []
  own : ∀ uri endpoints, (uri, endpoints) ∈ groups →
    ∀ key e, (key, e) ∈ endpoints → e.uri = uri ∧ key = e.verb.text

variable {groups other : Table (Table Endpoint)}

theorem Grouped.add (h : Grouped groups) (e : Endpoint) : Grouped (addEndpoint groups e) := by
  have hold : ∀ entry, entry ∈ (groups.get? e.uri).getD [] →
      ∃ endpoints, (e.uri, endpoints) ∈ groups ∧ entry ∈ endpoints := by
    intro entry hm
    cases hg : groups.get? e.uri with
    | none => simp [hg] at hm
    | some endpoints => exact ⟨endpoints, Table.mem_of_get? hg, by simpa [hg] using hm⟩
  have hsorted : Table.Sorted ((groups.get? e.uri).getD []) := by
    cases hg : groups.get? e.uri with
    | none => exact Table.Sorted.nil
    | some endpoints => exact h.sorted_inside _ _ (Table.mem_of_get? hg)
  refine ⟨h.sorted.insert _ _, ?_, ?_, ?_⟩
  · intro uri endpoints hm
    obtain he | hm := Table.mem_insert hm
    · cases he
      exact hsorted.insert _ _
    · exact h.sorted_inside uri endpoints hm
  · intro uri endpoints hm
    obtain he | hm := Table.mem_insert hm
    · cases he
      exact Table.insert_ne_nil _ _ _
    · exact h.ne_nil uri endpoints hm
  · intro uri endpoints hm key f hf
    obtain he | hm := Table.mem_insert hm
    · cases he
      obtain hnew | hf := Table.mem_insert hf
      · cases hnew
        exact ⟨rfl, rfl⟩
      · obtain ⟨before, hbefore, hin⟩ := hold _ hf
        exact h.own _ before hbefore key f hin
    · exact h.own uri endpoints hm key f hf

theorem Grouped.group (endpoints : List Endpoint) : Grouped (group endpoints) := by
  have hfold : ∀ groups, Grouped groups → Grouped (endpoints.foldl addEndpoint groups) := by
    induction endpoints with
    | nil => exact fun _ h => h
    | cons e rest ih => exact fun groups h => ih _ (h.add e)
  exact hfold [] ⟨Table.Sorted.nil, by simp, by simp, by simp⟩

theorem endpoint?_add (groups : Table (Table Endpoint)) (e : Endpoint) (uri : String)
    (verb : Verb) : endpoint? (addEndpoint groups e) uri verb =
      if e.uri = uri ∧ e.verb = verb then some e else endpoint? groups uri verb := by
  rw [endpoint?, addEndpoint, Table.get?_insert]
  by_cases hu : uri = e.uri
  · subst uri
    rw [if_pos rfl, Option.bind_some, Table.get?_insert]
    by_cases hv : e.verb = verb
    · simp [hv]
    · have ht : verb.text ≠ e.verb.text := fun he => hv (Verb.text_injective he.symm)
      rw [if_neg ht, if_neg fun hp => hv hp.2, endpoint?]
      cases groups.get? e.uri <;> rfl
  · rw [if_neg hu, if_neg fun hp => hu hp.1.symm, endpoint?]

/-- Of several endpoints for one path and verb the last one counts. -/
theorem endpoint?_group (endpoints : List Endpoint) (uri : String) (verb : Verb) :
    endpoint? (group endpoints) uri verb =
      endpoints.reverse.find? fun e => e.uri = uri ∧ e.verb = verb := by
  have hfold : ∀ groups, endpoint? (endpoints.foldl addEndpoint groups) uri verb =
      (endpoints.reverse.find? fun e => e.uri = uri ∧ e.verb = verb).or
        (endpoint? groups uri verb) := by
    induction endpoints with
    | nil => exact fun _ => rfl
    | cons e rest ih =>
      intro groups
      rw [List.foldl_cons, ih, endpoint?_add, List.reverse_cons, List.find?_append, Option.or_assoc]
      by_cases he : e.uri = uri ∧ e.verb = verb <;> simp [he]
  exact (hfold []).trans Option.or_none

theorem Grouped.mem_iff (h : Grouped groups) (uri : String) (verb : Verb) (e : Endpoint) :
    endpoint? groups uri verb = some e ↔ e.uri = uri ∧ e.verb = verb ∧
        ∃ endpoints, (uri, endpoints) ∈ groups ∧ (e.verb.text, e) ∈ endpoints := by
  constructor
  · intro he
    obtain ⟨endpoints, hg, hget⟩ := Option.bind_eq_some_iff.mp he
    have hm := Table.mem_of_get? hg
    obtain ⟨hu, hv⟩ := h.own uri endpoints hm _ e (Table.mem_of_get? hget)
    exact ⟨hu, Verb.text_injective hv.symm, endpoints, hm, hv ▸ Table.mem_of_get? hget⟩
  · rintro ⟨rfl, rfl, endpoints, hm, hin⟩
    rw [endpoint?, h.sorted.get?_of_mem hm, Option.bind_some]
    exact (h.sorted_inside _ _ hm).get?_of_mem hin

def inOrder (groups : Table (Table Endpoint)) : List Endpoint :=
  groups.flatMap fun (_, endpoints) => endpoints.map Prod.snd

theorem Grouped.mem_inOrder (h : Grouped groups) (e : Endpoint) :
    e ∈ inOrder groups ↔ endpoint? groups e.uri e.verb = some e := by
  rw [h.mem_iff, inOrder, List.mem_flatMap]
  constructor
  · rintro ⟨⟨uri, endpoints⟩, hm, he⟩
    obtain ⟨⟨key, f⟩, hf, rfl⟩ := List.mem_map.mp he
    obtain ⟨rfl, rfl⟩ := h.own uri endpoints hm key f hf
    exact ⟨rfl, rfl, endpoints, hm, hf⟩
  · rintro ⟨-, -, endpoints, hm, hin⟩
    exact ⟨_, hm, List.mem_map.mpr ⟨_, hin, rfl⟩⟩

theorem Grouped.pairwise_inOrder (h : Grouped groups) :
    (inOrder groups).Pairwise Endpoint.Before := by
  refine List.pairwise_flatMap.mpr ⟨?_, ?_⟩
  · rintro ⟨uri, endpoints⟩ hm
    refine List.pairwise_map.mpr ((h.sorted_inside uri endpoints hm).imp_of_mem ?_)
    rintro ⟨key, e⟩ ⟨other, f⟩ he hf hlt
    obtain ⟨hu, hv⟩ := h.own uri endpoints hm key e he
    obtain ⟨hu', hv'⟩ := h.own uri endpoints hm other f hf
    exact Or.inr ⟨hu.trans hu'.symm, hv ▸ hv' ▸ hlt⟩
  · refine List.Pairwise.imp_of_mem ?_ h.sorted
    rintro ⟨uri, endpoints⟩ ⟨uri', endpoints'⟩ hm hm' hlt _ he _ hf
    obtain ⟨⟨key, e⟩, hin, rfl⟩ := List.mem_map.mp he
    obtain ⟨⟨key', f⟩, hin', rfl⟩ := List.mem_map.mp hf
    obtain ⟨rfl, -⟩ := h.own uri endpoints hm key e hin
    obtain ⟨rfl, -⟩ := h.own uri' endpoints' hm' key' f hin'
    exact Or.inl hlt

theorem Grouped.get?_eq (h : Grouped groups) (h' : Grouped other)
    (heq : ∀ uri verb, endpoint? groups uri verb = endpoint? other uri verb) {uri : String}
    {endpoints : Table Endpoint} (hg : groups.get? uri = some endpoints) :
    other.get? uri = some endpoints := by
  have hm := Table.mem_of_get? hg
  have hfind : ∀ verb, endpoint? other uri verb = endpoints.get? verb.text := by
    intro verb
    rw [← heq, endpoint?, hg, Option.bind_some]
  cases hg' : other.get? uri with
  | none =>
    obtain ⟨⟨key, e⟩, rest, rfl⟩ := List.exists_cons_of_ne_nil (h.ne_nil uri endpoints hm)
    have hin : (key, e) ∈ (key, e) :: rest := List.mem_cons_self
    obtain ⟨-, rfl⟩ := h.own uri _ hm key e hin
    have hsome := hfind e.verb
    rw [(h.sorted_inside uri _ hm).get?_of_mem hin, endpoint?, hg'] at hsome
    cases hsome
  | some endpoints' =>
    have hm' := Table.mem_of_get? hg'
    have hverb :
        ∀ verb : Verb, Table.get? endpoints' verb.text = Table.get? endpoints verb.text := by
      intro verb
      rw [← hfind verb, endpoint?, hg', Option.bind_some]
    refine congrArg
      some (Table.Sorted.ext (h'.sorted_inside uri _ hm') (h.sorted_inside uri _ hm) ?_)
    intro key
    cases hk : Table.get? endpoints' key with
    | some e =>
      obtain ⟨-, rfl⟩ := h'.own uri _ hm' key e (Table.mem_of_get? hk)
      rw [← hk, hverb]
    | none =>
      cases hk' : Table.get? endpoints key with
      | none => rfl
      | some e =>
        obtain ⟨-, rfl⟩ := h.own uri _ hm key e (Table.mem_of_get? hk')
        rw [← hk', ← hverb, hk]

theorem Grouped.ext (h : Grouped groups) (h' : Grouped other)
    (heq : ∀ uri verb, endpoint? groups uri verb = endpoint? other uri verb) : groups = other := by
  apply Table.Sorted.ext h.sorted h'.sorted
  intro uri
  cases hg : groups.get? uri with
  | some endpoints => exact (h.get?_eq h' heq hg).symm
  | none =>
    cases hg' : other.get? uri with
    | none => rfl
    | some endpoints =>
      rw [h'.get?_eq h (fun uri verb => (heq uri verb).symm) hg'] at hg
      cases hg

end Assembler

end ApiContract
