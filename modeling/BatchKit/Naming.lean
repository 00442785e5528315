import Mathlib.Data.List.Basic
import Mathlib.Data.Nat.Digits

/-!
# Generation-tagged manager names

`hotswap_endpoint_managers` names each manager it builds
`"HotswapGen{0}_{1}".format(str(gen), endpoint_name)`, and managers are retired by name. The
name determines the generation and the endpoint name: the decimal digits of `str(gen)` hold
no underscore, so the first underscore after the prefix ends them.
-/

namespace BatchKit

def hotswapName (gen : Nat) (endpointName : String) : String :=
  "HotswapGen" ++ toString gen ++ "_" ++ endpointName

def digitValue (c : Char) : Nat := c.toNat - 48

/-- The number a list of decimal digit characters spells. -/
def decimalValue (cs : List Char) : Nat := cs.foldl (fun n c => n * 10 + digitValue c) 0

theorem digitValue_digitChar : ∀ d, d < 10 → digitValue (Nat.digitChar d) = d := by decide

theorem digitChar_ne_underscore : ∀ d, d < 10 → Nat.digitChar d ≠ '_' := by decide

theorem toDigitsCore_append (fuel n : Nat) (ds : List Char) :
    Nat.toDigitsCore 10 fuel n ds = Nat.toDigitsCore 10 fuel n [] ++ ds := by
  induction fuel generalizing n ds with
  | zero => rfl
  | succ fuel ih =>
    simp only [Nat.toDigitsCore]
    split
    · rfl
    · rw [ih _ (_ :: ds), ih _ [_]]; simp

theorem decimalValue_toDigitsCore (fuel n : Nat) (h : n < fuel) :
    decimalValue (Nat.toDigitsCore 10 fuel n []) = n := by
  induction fuel generalizing n with
  | zero => omega
  | succ fuel ih =>
    have hd := digitValue_digitChar _ (Nat.mod_lt n (by omega))
    simp only [Nat.toDigitsCore]
    split
    · simp [decimalValue, hd]; omega
    · rw [toDigitsCore_append, decimalValue, List.foldl_append, ← decimalValue, ih _ (by omega)]
      simp [hd]
      omega

theorem underscore_not_mem_toDigitsCore (fuel n : Nat) :
    '_' ∉ Nat.toDigitsCore 10 fuel n [] := by
  induction fuel generalizing n with
  | zero => simp [Nat.toDigitsCore]
  | succ fuel ih =>
    have hd := digitChar_ne_underscore _ (Nat.mod_lt n (by omega : 10 > 0))
    simp only [Nat.toDigitsCore]
    split
    · simpa using hd.symm
    · rw [toDigitsCore_append]; simpa [hd.symm] using ih _

theorem append_cons_cancel {c : Char} :
    ∀ {l₁ l₂ r₁ r₂ : List Char}, c ∉ l₁ → c ∉ l₂ → l₁ ++ c :: r₁ = l₂ ++ c :: r₂ →
      l₁ = l₂ ∧ r₁ = r₂
  | [], [], _, _, _, _, h => by simpa using h
  | [], _ :: _, _, _, _, h₂, h => by simp at h; simp [h.1] at h₂
  | _ :: _, [], _, _, h₁, _, h => by simp at h; simp [h.1] at h₁
  | _ :: _, _ :: _, _, _, h₁, h₂, h => by
    simp only [List.cons_append, List.cons.injEq] at h
    obtain ⟨hl, hr⟩ := append_cons_cancel (List.not_mem_of_not_mem_cons h₁)
      (List.not_mem_of_not_mem_cons h₂) h.2
    exact ⟨by rw [h.1, hl], hr⟩

theorem hotswapName_data (gen : Nat) (endpointName : String) :
    (hotswapName gen endpointName).data =
      "HotswapGen".data ++ (Nat.toDigitsCore 10 (gen + 1) gen [] ++ '_' :: endpointName.data) := by
  simp [hotswapName, String.data_append, toString, Nat.repr, Nat.toDigits]
  rfl

theorem hotswapName_inj {g₁ g₂ : Nat} {e₁ e₂ : String}
    (h : hotswapName g₁ e₁ = hotswapName g₂ e₂) : g₁ = g₂ ∧ e₁ = e₂ := by
  have hd := congrArg String.data h
  rw [hotswapName_data, hotswapName_data, List.append_cancel_left_eq] at hd
  obtain ⟨hg, he⟩ := append_cons_cancel (underscore_not_mem_toDigitsCore _ _)
    (underscore_not_mem_toDigitsCore _ _) hd
  refine ⟨?_, String.ext he⟩
  rw [← decimalValue_toDigitsCore (g₁ + 1) g₁ (by omega), hg,
    decimalValue_toDigitsCore _ _ (by omega)]

example : hotswapName 12 "en_1" = "HotswapGen12_en_1" := by decide

end BatchKit
