import GgmlViz.Foundation.Grouping
import GgmlViz.Config.Loading

/-! # Merging as a monoid

`merge_from` keeps the schema version of the configuration that it merges into, so it is an
operation on the configurations of version 1. There it is associative, the defaults are its
unit, and merging a configuration twice is merging it once. The valid configurations are
closed under it.
-/
namespace GgmlViz
open Layers

abbrev ConfigV1 := {c : Config // c.schemaVersion = 1}

namespace Config

theorem mergeFrom_self {c : Config} (h : c.schemaVersion = 1) : c.mergeFrom c = c := by
  apply ext_get
  intro f
  rw [get_mergeFrom c h,overlay_idem]

/-- `merge_from` on the configurations that meet `P`: an override monoid, and what that
means for any number of layers. -/
structure MergesAsMonoid (P : Config → Prop) : Prop where
  assoc : ∀ a b c, P a → P b → P c →
    (a.mergeFrom b).mergeFrom c = a.mergeFrom (b.mergeFrom c)
  default_left : ∀ a, P a → defaultConfig.mergeFrom a = a
  default_right : ∀ a, P a → a.mergeFrom defaultConfig = a
  absorbs : ∀ a b, P a → P b → (a.mergeFrom b).mergeFrom b = a.mergeFrom b
  closed : ∀ a b, P a → P b → P (a.mergeFrom b)
  /-- However the layers are grouped, they come to merging them one after the other. -/
  grouped : ∀ t : Grouping Config, (∀ c ∈ t.leaves, P c) →
    t.eval mergeFrom = t.leaves.foldl mergeFrom defaultConfig
  reapplied : ∀ layers last, (∀ c ∈ layers, P c) → P last →
    ((layers ++ [last]).foldl mergeFrom defaultConfig).mergeFrom last =
      (layers ++ [last]).foldl mergeFrom defaultConfig

end Config

namespace ConfigV1
open Config

instance : Monoid ConfigV1 where
  mul a b := ⟨a.val.mergeFrom b.val,a.property⟩
  one := ⟨defaultConfig,rfl⟩
  mul_assoc a b c := Subtype.ext (mergeFrom_assoc a.val b.property c.property)
  one_mul a := Subtype.ext (defaultConfig_mergeFrom a.property)
  mul_one a := Subtype.ext (mergeFrom_defaultConfig a.val)

@[simp] theorem val_one : (1 : ConfigV1).val = defaultConfig := rfl

@[simp] theorem val_mul (a b : ConfigV1) : (a * b).val = a.val.mergeFrom b.val := rfl

theorem mul_self (a : ConfigV1) : a * a = a := Subtype.ext (mergeFrom_self a.property)

/-- The product of layers is what merging them one after the other gives. -/
theorem val_prod (layers : List ConfigV1) :
    layers.prod.val = (layers.map Subtype.val).foldl mergeFrom defaultConfig := by
  rw [List.prod_eq_foldl,← val_one,List.foldl_map]
  generalize (1 : ConfigV1) = first
  induction layers generalizing first with
  | nil => rfl
  | cons a layers ih => exact ih (first * a)

/-- Every bracketing of layers is their product. -/
theorem val_eval (t : Grouping ConfigV1) :
    (t.map Subtype.val).eval mergeFrom = t.leaves.prod.val := by
  rw [Grouping.eval_map val_mul,Grouping.eval_mul]

end ConfigV1

namespace Config

theorem mergesAsMonoid_v1 : MergesAsMonoid (fun c => c.schemaVersion = 1) where
  assoc a _ _ _ hb hc := mergeFrom_assoc a hb hc
  default_left _ ha := defaultConfig_mergeFrom ha
  default_right a _ := mergeFrom_defaultConfig a
  absorbs a b _ hb := by rw [mergeFrom_assoc a hb hb,mergeFrom_self hb]
  closed _ _ ha _ := ha
  grouped t h := by
    obtain ⟨s,rfl⟩ := t.exists_map_val h
    rw [ConfigV1.val_eval,ConfigV1.val_prod,Grouping.leaves_map]
  reapplied layers last h hlast := by
    let last' : ConfigV1 := ⟨last,hlast⟩
    have hprod := congrArg Subtype.val
      (Grouping.prod_concat_mul_self (ConfigV1.mul_self last') (layers.attachWith _ h))
    rwa [ConfigV1.val_mul,ConfigV1.val_prod,List.map_append,
      List.attachWith_map_subtype_val] at hprod

/-- Fewer configurations keep the laws as long as they are closed under merging. -/
theorem MergesAsMonoid.restrict {P Q : Config → Prop} (h : MergesAsMonoid P)
    (hPQ : ∀ c, Q c → P c) (hclosed : ∀ a b, Q a → Q b → Q (a.mergeFrom b)) :
    MergesAsMonoid Q where
  assoc a b c ha hb hc := h.assoc a b c (hPQ a ha) (hPQ b hb) (hPQ c hc)
  default_left a ha := h.default_left a (hPQ a ha)
  default_right a ha := h.default_right a (hPQ a ha)
  absorbs a b ha hb := h.absorbs a b (hPQ a ha) (hPQ b hb)
  closed := hclosed
  grouped t ht := h.grouped t (fun c hc => hPQ c (ht c hc))
  reapplied layers last hlayers hlast :=
    h.reapplied layers last (fun c hc => hPQ c (hlayers c hc)) (hPQ last hlast)

/-- Merging is an override monoid on the configurations of version 1, and on the valid ones
among them. -/
theorem mergeFrom_overrideMonoid :
    MergesAsMonoid (fun c => c.schemaVersion = 1) ∧
      MergesAsMonoid (fun c => c.isValid = true) := by
  refine ⟨mergesAsMonoid_v1,mergesAsMonoid_v1.restrict ?_ ?_⟩
  · intro c hc
    exact isValid_iff.mp hc .schemaVersion
  · intro a b ha hb
    exact isValid_mergeFrom ha hb

end Config
end GgmlViz
