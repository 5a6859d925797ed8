import Mathlib.Data.List.Basic
import Mathlib.Tactic.Lemma

/-!
# Bytes read as a C string

A function that takes a `const char*` sees the bytes up to the first NUL.  `cString` is that view
of a byte array, and the lemmas say when nothing is lost by it: for one array
(`cString_eq_self_iff`), and for a sequence of arrays each of which is cut on its own
(`flatten_cString_eq_iff`).
-/

namespace CppServer

/-- What a reader of a NUL-terminated string sees of an array. -/
def cString (bytes : List UInt8) : List UInt8 := bytes.takeWhile (· != 0)

/-- The bytes of a string literal. -/
def ofLiteral (literal : String) : List UInt8 := literal.toList.map fun c => c.toNat.toUInt8

@[simp] lemma cString_nil : cString [] = [] := rfl

@[simp] lemma cString_zero_cons (bytes : List UInt8) : cString (0 :: bytes) = [] := by
  simp [cString]

lemma cString_cons {b : UInt8} (hb : b ≠ 0) (bytes : List UInt8) :
    cString (b :: bytes) = b :: cString bytes := by
  simp [cString, hb]

lemma length_cString_le (bytes : List UInt8) : (cString bytes).length ≤ bytes.length :=
  (List.takeWhile_prefix _).length_le

/-- The NUL that ends an array is not seen. -/
lemma cString_append_zero (bytes : List UInt8) : cString (bytes ++ [0]) = cString bytes := by
  induction bytes with
  | nil => simp
  | cons b bs ih =>
      by_cases hb : b = 0
      · simp [hb]
      · rw [List.cons_append, cString_cons hb, cString_cons hb, ih]

/-- Cutting at the first NUL loses nothing exactly when there is no NUL. -/
theorem cString_eq_self_iff (bytes : List UInt8) : cString bytes = bytes ↔ 0 ∉ bytes := by
  induction bytes with
  | nil => simp
  | cons b bs ih =>
      by_cases hb : b = 0
      · subst hb
        simp
      · rw [cString_cons hb, List.cons.injEq, List.mem_cons, ih]
        simp [Ne.symm hb]

lemma length_flatten_cString_le (chunks : List (List UInt8)) :
    (chunks.map cString).flatten.length ≤ chunks.flatten.length := by
  induction chunks with
  | nil => simp
  | cons l ls ih =>
      have := length_cString_le l
      simp only [List.map_cons, List.flatten_cons, List.length_append]
      omega

/-- **Cutting each chunk on its own** loses nothing exactly when no chunk has a NUL: every chunk
gets shorter or stays, so one lost byte cannot be made up for elsewhere. -/
theorem flatten_cString_eq_iff (chunks : List (List UInt8)) :
    (chunks.map cString).flatten = chunks.flatten ↔ 0 ∉ chunks.flatten := by
  induction chunks with
  | nil => simp
  | cons l ls ih =>
      simp only [List.map_cons, List.flatten_cons, List.mem_append, not_or, ← ih,
        ← cString_eq_self_iff]
      constructor
      · intro h
        have hlen := congrArg List.length h
        have hl := length_cString_le l
        have hls := length_flatten_cString_le ls
        simp only [List.length_append] at hlen
        exact List.append_inj h (by omega)
      · rintro ⟨h₁, h₂⟩
        rw [h₁, h₂]

end CppServer
