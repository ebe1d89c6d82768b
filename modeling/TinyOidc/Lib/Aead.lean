import Mathlib.Logic.Function.Basic
import Mathlib.Data.List.Basic

/-! Ideal authenticated encryption: what decrypts under a key, a nonce and a header is exactly what
was encrypted under them. The encryptions made are a log, and decryption looks there. -/
namespace Aead

/-- Texts are told apart under one key, nonce and header. -/
structure Scheme (κ ν η τ χ : Type) where
  encrypt : κ → ν → η → τ → χ
  injective : ∀ key nonce header, Function.Injective (encrypt key nonce header)

/-- An encryption that was made. -/
structure Sealing (κ ν η τ : Type) where
  key : κ
  nonce : ν
  header : η
  text : τ
  deriving DecidableEq

variable {κ ν η τ χ : Type} [DecidableEq κ] [DecidableEq ν] [DecidableEq η] [DecidableEq χ]

def Scheme.decrypt (S : Scheme κ ν η τ χ) (made : List (Sealing κ ν η τ)) (key : κ) (nonce : ν)
    (header : η) (cipher : χ) : Option τ :=
  (made.find? fun s => s.key = key ∧ s.nonce = nonce ∧ s.header = header ∧
    S.encrypt key nonce header s.text = cipher).map (·.text)

theorem Scheme.decrypt_eq_some {S : Scheme κ ν η τ χ} {made : List (Sealing κ ν η τ)} {key : κ}
    {nonce : ν} {header : η} {cipher : χ} {text : τ} :
    S.decrypt made key nonce header cipher = some text ↔
      ⟨key, nonce, header, text⟩ ∈ made ∧ cipher = S.encrypt key nonce header text := by
  unfold Scheme.decrypt
  constructor
  · intro h
    obtain ⟨s, hfind, rfl⟩ := Option.map_eq_some_iff.mp h
    have hspec := List.find?_some hfind
    simp only [decide_eq_true_eq] at hspec
    obtain ⟨rfl, rfl, rfl, hcipher⟩ := hspec
    exact ⟨List.mem_of_find?_eq_some hfind, hcipher.symm⟩
  · rintro ⟨hmem, rfl⟩
    have hsome : (made.find? fun s => decide (s.key = key ∧ s.nonce = nonce ∧ s.header = header ∧
        S.encrypt key nonce header s.text = S.encrypt key nonce header text)).isSome = true := by
      apply List.find?_isSome.mpr
      exact ⟨_, hmem, by simp⟩
    obtain ⟨s, hfind⟩ := Option.isSome_iff_exists.mp hsome
    have hspec := List.find?_some hfind
    simp only [decide_eq_true_eq] at hspec
    have htext := S.injective key nonce header hspec.2.2.2
    rw [hfind, Option.map_some, htext]

end Aead
