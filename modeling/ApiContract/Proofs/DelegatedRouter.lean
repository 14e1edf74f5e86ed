import ApiContract.Proofs.ExtractedRouter
import Mathlib.Data.List.Perm.Basic

namespace ApiContract.Routers

open Source Route

/-- All that a root gives comes from its operand `e`, which becomes the function `g`: it registers
nothing else, its routes are those of the operand, and no call binds the two together or the rest of
it to other router functions. -/
structure HandsOver (r : Routers) (name : String) (f f' g : DeclaredFunction) (e : Expr) :
    Prop where
  root : name ∈ r.roots
  unregistered : isRouterBody f'.body = false
  plain : ∀ called : String → List Route,
      chainOfBody ⟨f.scope, r.names.contains, called⟩ [] none f.body =
        chain ⟨f.scope, r.names.contains, called⟩ [] e
  outside : ∀ callee ∈ calls f', callee ∉ r.names
  inside : name ∉ calls g

namespace Extracts

variable {r r' : Routers} {name sub short : String} {f f' g : DeclaredFunction} {e : Expr}

theorem name_not_mem_names (h : Extracts r r' name sub short f f' g e)
    (hover : HandsOver r name f f' g e) : name ∉ r'.names := by
  rw [Routers.mem_names h.sorted']
  simp [h.after, hover.unregistered]

theorem isRouterBody_part (h : Extracts r r' name sub short f f' g e)
    (hover : HandsOver r name f f' g e) : isRouterBody g.body = true := by
  obtain ⟨d, hget, hrouter⟩ := (Routers.mem_names h.sorted).mp (mem_roots.mp hover.root).1
  obtain rfl : f = d := Option.some.inj (h.before.symm.trans hget)
  obtain ⟨_, _, own, -, -, hown, hown'⟩ := h.parts
  rw [hown, ← hown', hover.unregistered, Bool.false_or] at hrouter
  exact hrouter

theorem exists_calls_of_handsOver (h : Extracts r r' name sub short f f' g e)
    (hover : HandsOver r name f f' g e) {key : String} (hkey : key ≠ name) (hsub : key ≠ sub)
    (hrouter : key ∈ r.names) : (∃ caller, caller ≠ key ∧ r'.Calls caller key) ↔
    ∃ caller, caller ≠ key ∧ r.Calls caller key := by
  constructor
  · rintro ⟨caller, hne, hcall⟩
    by_cases hcaller : caller = sub
    · obtain ⟨-, hm⟩ := h.calls_sub.mp (hcaller ▸ hcall)
      exact ⟨name, Ne.symm hkey, (mem_roots.mp hover.root).1, f, h.before, h.mem_calls_of_part hm⟩
    · have hother : caller ≠ name := by
        rintro rfl
        exact h.name_not_mem_names hover hcall.1
      exact ⟨caller, hne, (h.calls_other hother hcaller).mp hcall⟩
  · rintro ⟨caller, hne, hcall⟩
    have hcaller : caller ≠ sub := by
      rintro rfl
      exact h.sub_not_mem_names hcall.1
    by_cases hother : caller = name
    · obtain ⟨-, d, hget, hm⟩ := hcall
      obtain rfl : f = d := Option.some.inj (h.before.symm.trans (hother ▸ hget))
      obtain hm | hm := (h.mem_calls hsub).mp hm
      · exact absurd hrouter (hover.outside key hm)
      · exact ⟨sub, Ne.symm hsub, h.calls_sub.mpr ⟨h.isRouterBody_part hover, hm⟩⟩
    · exact ⟨caller, hne, (h.calls_other hother hcaller).mpr hcall⟩

theorem mem_roots_of_handsOver (h : Extracts r r' name sub short f f' g e)
    (hover : HandsOver r name f f' g e) {key : String} :
    key ∈ r'.roots ↔ key = sub ∨ key ∈ r.roots ∧ key ≠ name := by
  have hname := h.name_not_mem_names hover
  by_cases hsub : key = sub
  · subst hsub
    refine iff_of_true (mem_roots.mpr
      ⟨h.sub_mem_names.mpr (h.isRouterBody_part hover), fun hnested => ?_⟩) (.inl rfl)
    obtain ⟨-, caller, hne, hcall⟩ := (Routers.mem_nested h.sorted').mp hnested
    have hother : caller ≠ name := by
      rintro rfl
      exact hname hcall.1
    obtain ⟨-, d, hget, hm⟩ := (h.calls_other hother hne).mp hcall
    exact h.uncalled caller d hget hm
  by_cases hkey : key = name
  · subst hkey
    simp [mem_roots, hname, hsub]
  have hcalls := h.exists_calls_of_handsOver hover hkey hsub
  rw [mem_roots, mem_roots, h.mem_names_other hkey hsub, Routers.mem_nested h.sorted',
    Routers.mem_nested h.sorted, h.mem_names_other hkey hsub]
  by_cases hrouter : key ∈ r.names <;> simp [hrouter, hcalls, hsub, hkey]

/-- What calls give after the change: other router functions what they give before within a
depth. -/
def kept (r r' : Routers) (name : String) (depth more : Nat) (key : String) : List Route :=
  if key ∈ r.names ∧ key ≠ name then r.routesWithin r.names more key
  else r'.routesWithin r'.names depth key

theorem agreeIn_kept (h : Extracts r r' name sub short f f' g e) {d : DeclaredFunction}
    (hnew : ∀ callee ∈ calls d, callee ≠ sub) (hold : name ∉ calls d) {scope scope' : Scope}
    (hscope : ∀ text, scope.resolve text = d.scope.resolve text) (depth more : Nat) :
    AgreeIn ⟨scope, r.names.contains, r.routesWithin r.names more⟩
      ⟨scope', r'.names.contains, kept r r' name depth more⟩ (nodes d.body) := by
  refine agreeIn_of_calls hscope fun callee hm => ?_
  have hname : callee ≠ name := fun he => hold (he ▸ hm)
  refine ⟨?_, fun hrouter => (if_pos ⟨List.contains_iff_mem.mp hrouter, hname⟩).symm⟩
  rw [Bool.eq_iff_iff, List.contains_iff_mem, List.contains_iff_mem,
    h.mem_names_other hname (hnew callee hm)]

theorem kept_eq {depth more : Nat}
    (hothers : ∀ other ∈ r.names, other ≠ name → r'.Settled depth other →
        r'.routesWithin r'.names depth other = r.routesWithin r.names more other) (other : String)
    (hsettled : r'.Settled depth other) :
    kept r r' name depth more other = r'.routesWithin r'.names depth other := by
  by_cases hkept : other ∈ r.names ∧ other ≠ name
  · rw [kept, if_pos hkept, hothers other hkept.1 hkept.2 hsettled]
  · rw [kept, if_neg hkept]

theorem routesWithin_of_handsOver (h : Extracts r r' name sub short f f' g e)
    (hover : HandsOver r name f f' g e) (depth : Nat) :
    ∀ key ∈ r.names, key ≠ name → r'.Settled depth key →
      ∀ more ≥ depth, r'.routesWithin r'.names depth key = r.routesWithin r.names more key := by
  induction depth with
  | zero => exact fun key _ _ hsettled => hsettled.elim
  | succ depth ih =>
    intro key hrouter hname hsettled more hle
    obtain ⟨more, rfl⟩ : ∃ less, more = less + 1 := ⟨more - 1, by omega⟩
    have hsub : key ≠ sub := fun he => h.sub_not_mem_names (he ▸ hrouter)
    obtain ⟨d, hget, -⟩ := (Routers.mem_names h.sorted).mp hrouter
    obtain ⟨hnone, -⟩ | ⟨other, d', hother, hget', halike⟩ := h.alike hname hsub
    · exact absurd (hget.symm.trans hnone) (Option.some_ne_none d)
    · obtain rfl : other = d := Option.some.inj (hother.symm.trans hget)
      have hold : name ∉ calls other := by
        intro hm
        obtain ⟨hname', hnested⟩ := mem_roots.mp hover.root
        exact hnested
          ((Routers.mem_nested h.sorted).mpr ⟨hname', key, hname, hrouter, other, hget, hm⟩)
      have hothers :=
        kept_eq fun other hm hne hsettled' => ih other hm hne hsettled' more (by omega)
      have hcalls : AgreeIn _ ⟨d'.scope, _, _⟩ _ :=
        h.agreeIn_kept (fun _ => h.ne_of_mem_calls hget) hold (fun _ => rfl) depth more
      rw [← hsettled d' hget' _ hothers, routesWithin_of_some hget, ← halike.body]
      exact (chainOfBody_congr halike.resolve other.body none hcalls (.refl _ _) (.nil _ _)).symm

theorem routesWithin_sub_of_handsOver (h : Extracts r r' name sub short f f' g e)
    (hover : HandsOver r name f f' g e) {depth more : Nat} (hsettled : r'.Settled (depth + 1) sub)
    (hle : depth ≤ more) :
    r'.routesWithin r'.names (depth + 1) sub = r.routesWithin r.names (more + 1) name := by
  have hothers := kept_eq fun other hm hne hsettled' =>
    h.routesWithin_of_handsOver hover depth other hm hne hsettled' more hle
  have hnew : ∀ callee ∈ calls g, callee ≠ sub :=
    fun _ hm => h.ne_of_mem_calls h.before (h.mem_calls_of_part hm)
  have hcalls : AgreeIn _ ⟨g.scope, _, _⟩ _ :=
    h.agreeIn_kept hnew hover.inside h.resolve' depth more
  rw [h.nodes_body] at hcalls
  rw [← hsettled g h.added _ hothers, h.body, chainOfBody_single _ h.operand,
    routesWithin_of_some h.before, hover.plain]
  exact (chain_agree h.resolve' [] e hcalls).symm

theorem routes_perm (h : Extracts r r' name sub short f f' g e) (hover : HandsOver r name f f' g e)
    (hlimit : ∀ root ∈ r'.roots, r'.Settled depthLimit root) : r'.routes.Perm r.routes := by
  have hnodup : r.roots.Nodup := (pairwise_roots h.sorted).imp String.ne_of_lt
  have hnodup' : r'.roots.Nodup := (pairwise_roots h.sorted').imp String.ne_of_lt
  have hsub : sub ∉ r.roots := fun hm => h.sub_not_mem_names (mem_roots.mp hm).1
  have hroots : r'.roots.Perm (sub :: r.roots.erase name) := by
    refine (List.perm_ext_iff_of_nodup hnodup' ?_).mpr fun key => ?_
    · exact List.nodup_cons.mpr ⟨fun hm => hsub (List.mem_of_mem_erase hm), hnodup.erase _⟩
    · rw [h.mem_roots_of_handsOver hover, List.mem_cons, hnodup.mem_erase_iff, and_comm]
  have hothers : ∀ root ∈ r.roots.erase name,
      r'.routesWithin r'.names depthLimit root = r.routesWithin r.names depthLimit root := by
    intro root hm
    obtain ⟨hne, hroot⟩ := hnodup.mem_erase_iff.mp hm
    have hsettled := hlimit root ((h.mem_roots_of_handsOver hover).mpr (.inr ⟨hroot, hne⟩))
    exact h.routesWithin_of_handsOver hover depthLimit root (mem_roots.mp hroot).1 hne hsettled
      depthLimit (Nat.le_refl _)
  have hsettled := hlimit sub ((h.mem_roots_of_handsOver hover).mpr (.inl rfl))
  have hfirst : r'.routesWithin r'.names depthLimit sub = r.routesWithin r.names depthLimit name :=
    h.routesWithin_sub_of_handsOver hover hsettled (Nat.le_refl _)
  have hsame : (sub :: r.roots.erase name).flatMap (r'.routesWithin r'.names depthLimit) =
      (name :: r.roots.erase name).flatMap (r.routesWithin r.names depthLimit) := by
    rw [List.flatMap_cons, List.flatMap_cons, List.flatMap_congr hothers, hfirst]
  refine (hroots.flatMap_right _).trans ?_
  rw [hsame]
  exact (List.perm_cons_erase hover.root).symm.flatMap_right _

end Extracts

end ApiContract.Routers
