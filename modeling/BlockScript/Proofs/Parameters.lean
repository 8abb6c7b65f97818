import BlockScript.Proofs.Outline.Body

/-! Parameters of the functions in a program that comes from a text. -/

namespace BlockScript.Program

open List

theorem Params.names_nodup_iff {p : Params} (h : (p.args.map Param.name).Nodup) :
    p.names.Nodup ↔ (∀ r ∈ p.rest, r ∉ p.args.map Param.name) ∧
      ∀ k ∈ p.keywords, k ∉ p.args.map Param.name ∧ p.rest ≠ some k := by
  rw [names, append_assoc]
  generalize p.args.map Param.name = names at h
  cases p.rest <;> cases p.keywords <;>
    simp [h, nodup_append', disjoint_singleton, disjoint_cons_right, and_left_comm, and_comm]

namespace Module

def Defines (m : Module) (params : Params) : Prop :=
  ∃ span name body decorators, Stmt.functionDef span name params body decorators ∈ Stmt.withinAll m

variable {source : List Char} {filename : String} {m : Module} {params : Params}

theorem Defines.valid (hdef : m.Defines params) (hparse : Module.parse source filename = .ok m) :
    params.Valid := by
  obtain ⟨_, _, _, _, hmem⟩ := hdef
  obtain ⟨-, hshape, -⟩ := Stmt.Placed.of_in (Stmt.in_of_mem_withinAll m hmem)
    (placed_of_parse hparse)
  exact hshape.2.1

/-- The positional parameters of a text have distinct names, and one after a parameter with a
default has a default too. All names are distinct unless that of a starred parameter repeats
another. -/
theorem params_names_nodup_iff (hparse : Module.parse source filename = .ok m)
    (hdef : m.Defines params) : (params.args.map Param.name).Nodup ∧
      params.args.Pairwise (fun a b => a.default.isSome = true → b.default.isSome = true) ∧
      (params.names.Nodup ↔ (∀ r ∈ params.rest, r ∉ params.args.map Param.name) ∧
        ∀ k ∈ params.keywords, k ∉ params.args.map Param.name ∧ params.rest ≠ some k) := by
  obtain ⟨-, hdistinct, hdefaults⟩ := hdef.valid hparse
  exact ⟨hdistinct, hdefaults, Params.names_nodup_iff hdistinct⟩

theorem parse_method : (match Module.parse
      "class C:\n    def f(a, b=1, *c, **d): pass\n".toList "method" with
    | .ok [.classDef _ _ _ [.functionDef _ _ params _ _] _] => params.args.length == 2
    | _ => false) = true := by
  with_unfolding_all decide

theorem params_names_nodup_iff_method : ∃ m params,
    Module.parse "class C:\n    def f(a, b=1, *c, **d): pass\n".toList "method" = .ok m ∧
    m.Defines params ∧
      params.args.length = 2 ∧ (params.args.map Param.name).Nodup := by
  have hclosed := parse_method
  split at hclosed
  · next hm =>
    refine ⟨_, _, hm, ?_, eq_of_beq hclosed, (params_names_nodup_iff hm ?_).1⟩ <;>
      exact ⟨_, _, _, _, mem_append_left [] (mem_cons_of_mem _ (mem_append_left [] mem_cons_self))⟩
  · cases hclosed

theorem parse_starredTwice : (match Module.parse "def f(a, *a): pass\n".toList "<test>" with
    | .ok [.functionDef _ _ params _ _] => params.names == ["a", "a"]
    | _ => false) = true := by
  with_unfolding_all decide

/-- The name of a starred parameter is not compared with those before it. -/
theorem starred_name_repeats :
    ∃ m params, Module.parse "def f(a, *a): pass\n".toList "<test>" = .ok m ∧
    m.Defines params ∧ ¬ params.names.Nodup := by
  have hclosed := parse_starredTwice
  split at hclosed
  · next hm =>
    refine ⟨_, _, hm, ⟨_, _, _, _, mem_append_left [] mem_cons_self⟩, ?_⟩
    rw [eq_of_beq hclosed]
    decide
  · cases hclosed

end Module

end BlockScript.Program
