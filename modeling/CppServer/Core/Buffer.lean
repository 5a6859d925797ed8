import CppServer.Lib.CString

/-!
# `Buffer`

A `std::string` with C-string entry points.  `append` and `setBuf` take a `const char*` and so
stop at its NUL; `appendN` is given a size, and its copy loop stops at the first NUL as well.
-/

namespace CppServer

/-- `Buffer`, as the content of `buf_`. -/
structure Buffer where
  buf : List UInt8 := []
  deriving DecidableEq, Repr

namespace Buffer

/-- `Buffer::Size` -/
def size (b : Buffer) : ℕ := b.buf.length

/-- `Buffer::Cstr`: the bytes, and the NUL that `c_str()` puts behind them. -/
def cstr (b : Buffer) : List UInt8 := b.buf ++ [0]

/-- `Buffer::Append(const char*)` -/
def append (b : Buffer) (str : List UInt8) : Buffer := { buf := b.buf ++ cString str }

/-- The copy loop of `Append(const char*, int)` over the bytes still to be looked at. -/
def pushUntilNul : List UInt8 → List UInt8 → List UInt8
  | buf, [] => buf
  | buf, c :: cs => if c = 0 then buf else pushUntilNul (buf ++ [c]) cs

/-- `Buffer::Append(const char*, int)` -/
def appendN (b : Buffer) (str : List UInt8) (size : ℕ) : Buffer :=
  { buf := pushUntilNul b.buf (str.take size) }

/-- `Buffer::SetBuf` -/
def setBuf (_ : Buffer) (str : List UInt8) : Buffer := append {} str

/-- `Buffer::ClearBuffer` -/
def clearBuffer (_ : Buffer) : Buffer := {}

@[simp] lemma clearBuffer_buf (b : Buffer) : b.clearBuffer.buf = [] := rfl

lemma pushUntilNul_eq (str : List UInt8) :
    ∀ buf : List UInt8, pushUntilNul buf str = buf ++ cString str := by
  induction str with
  | nil => simp [pushUntilNul]
  | cons c cs ih =>
      intro buf
      by_cases hc : c = 0
      · subst hc
        simp [pushUntilNul]
      · rw [pushUntilNul, if_neg hc, ih, cString_cons hc, List.append_assoc]
        rfl

/-- **The copy loop appends the C string in the first `size` bytes.** -/
@[simp] lemma appendN_buf (b : Buffer) (str : List UInt8) (size : ℕ) :
    (b.appendN str size).buf = b.buf ++ cString (str.take size) :=
  pushUntilNul_eq _ _

/-- A buffer's own content passes through `c_str()` unharmed when it has no NUL. -/
lemma cString_cstr {b : Buffer} (h : 0 ∉ b.buf) : cString b.cstr = b.buf := by
  rw [cstr, cString_append_zero]
  exact (cString_eq_self_iff b.buf).mpr h

end Buffer

end CppServer
