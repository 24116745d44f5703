import BlockRuntime.Text.Json.Basic
import Mathlib.Data.List.Nodup

namespace BlockRuntime.DocumentForm

variable {ν : Type} {names : List String} {bindings others : List (String × ν)}

/-- Fields may come in any order. -/
theorem ofBindings?_perm (h : bindings.Perm others) :
    ofBindings? names bindings = ofBindings? names others := by
  have hunique : uniqueField? bindings = uniqueField? others := by
    funext name
    have hperm : (bindings.filter fun binding => binding.1 = name).Perm
        (others.filter fun binding => binding.1 = name) := h.filter _
    unfold uniqueField?
    generalize bindings.filter _ = found at hperm
    generalize others.filter _ = again at hperm
    match found with
    | [] => rw [hperm.nil_eq]
    | [binding] => rw [List.singleton_perm.mp hperm]
    | _ :: _ :: _ =>
      -- what is bound more than once is refused in any order
      match again, hperm.length_eq with
      | _ :: _ :: _, _ => rfl
  unfold ofBindings?
  rw [hunique]

theorem uniqueField?_append {name : String} (h : ∀ binding ∈ others, binding.1 ≠ name) :
    uniqueField? (bindings ++ others) name = uniqueField? bindings name := by
  have hnone : others.filter (fun binding => binding.1 = name) = [] :=
    List.filter_eq_nil_iff.mpr fun binding hmem heq => h binding hmem (of_decide_eq_true heq)
  unfold uniqueField?
  rw [List.filter_append, hnone, List.append_nil]

/-- Fields of other names are passed over. -/
theorem ofBindings?_append (h : ∀ binding ∈ others, binding.1 ∉ names) :
    ofBindings? names (bindings ++ others) = ofBindings? names bindings := by
  unfold ofBindings?
  induction names with
  | nil => rfl
  | cons name names ih =>
    have hhead : uniqueField? (bindings ++ others) name = uniqueField? bindings name :=
      uniqueField?_append fun binding hmem heq => h binding hmem (heq ▸ List.mem_cons_self)
    have htail := ih fun binding hmem hname => h binding hmem (List.mem_cons_of_mem _ hname)
    rw [List.mapM_cons, List.mapM_cons, hhead, htail]

/-- A field among fields of different names is found. -/
theorem uniqueField?_of_mem {binding : String × ν} (hnodup : (bindings.map Prod.fst).Nodup)
    (hmem : binding ∈ bindings) : uniqueField? bindings binding.1 = some (some binding.2) := by
  have hfilter : bindings.filter (fun other => other.1 = binding.1) = [binding] := by
    induction bindings with
    | nil => exact absurd hmem List.not_mem_nil
    | cons first bindings ih =>
      obtain ⟨hfirst, hnodup⟩ := List.nodup_cons.mp hnodup
      rcases List.mem_cons.mp hmem with rfl | hmem
      · have hnone : bindings.filter (fun other => other.1 = binding.1) = [] :=
          List.filter_eq_nil_iff.mpr fun other hother heq =>
            hfirst (List.mem_map.mpr ⟨other, hother, of_decide_eq_true heq⟩)
        rw [List.filter_cons, if_pos (decide_eq_true rfl), hnone]
      · have hne : first.1 ≠ binding.1 := fun heq => hfirst (List.mem_map.mpr ⟨binding, hmem, heq.symm⟩)
        rw [List.filter_cons, if_neg (fun heq => hne (of_decide_eq_true heq)), ih hnodup hmem]
  unfold uniqueField?
  rw [hfilter]

/-- Bindings of different names are all found. -/
theorem ofBindings?_self (bindings : List (String × ν)) (hnodup : (bindings.map Prod.fst).Nodup) :
    ofBindings? (bindings.map Prod.fst) bindings = some ((bindings.map Prod.snd).map some) := by
  -- the bindings looked up become fewer, those they are looked up among stay
  have hpart (part : List (String × ν)) (hsub : ∀ binding ∈ part, binding ∈ bindings) :
      (part.map Prod.fst).mapM (uniqueField? bindings) = some ((part.map Prod.snd).map some) := by
    induction part with
    | nil => rfl
    | cons binding part ih =>
      have hhead := uniqueField?_of_mem hnodup (hsub binding List.mem_cons_self)
      have htail := ih fun other hmem => hsub other (List.mem_cons_of_mem _ hmem)
      rw [List.map_cons, List.mapM_cons, hhead, htail]
      rfl
  exact hpart bindings fun _ hmem => hmem

end BlockRuntime.DocumentForm

namespace BlockRuntime.Json

open DocumentForm

/-- An object with all fields of a structure has them all as members. -/
theorem members?_object (names : List String) (values : List Json) (hnodup : names.Nodup)
    (hlength : names.length = values.length) :
    form.members? names (object (names.zip values)) = some (values.map some) := by
  have hnames : (names.zip values).map Prod.fst = names := List.map_fst_zip (Nat.le_of_eq hlength)
  have hvalues : (names.zip values).map Prod.snd = values := List.map_snd_zip (Nat.le_of_eq hlength.symm)
  have hbindings := ofBindings?_self (names.zip values) (hnames.symm ▸ hnodup)
  rw [hnames, hvalues] at hbindings
  exact hbindings

/-- The values of a structure may be written in order, without the names of the fields. -/
theorem members?_array (names : List String) (values : List Json) (hnodup : names.Nodup)
    (hlength : names.length = values.length) :
    form.members? names (array values) = form.members? names (object (names.zip values)) := by
  have hpad : padTo? names.length values = some (values.map some) := by
    rw [padTo?, if_pos (Nat.le_of_eq hlength.symm), hlength, Nat.sub_self, List.replicate_zero,
      List.append_nil]
  rw [members?_object names values hnodup hlength]
  exact hpad

end BlockRuntime.Json
