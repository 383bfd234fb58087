import Fr8012haLock.Lib.Console

/-!
# Messages on the console (`app_common.c`, `app_common.h`)

Every message of `APP_COMM_PRINTF` begins with the tag of its module in square brackets.  The dump that
`app_comm_print_buff` makes of a buffer can be read, whatever its line breaks (`readBytes_printBuff`).

The messages are printed by `co_printf`, which is in the ROM and only declared here (`co_printf.h`).  Its conversions are
taken to be those of the `printf` of C.
-/

namespace Fr8012haLock.Common

open Console

/-- `APP_COMM_PRINTF`, with the `LOG_TAG` of the module. -/
def appCommPrintf (logTag text : List Char) : List Char := '[' :: (logTag ++ ']' :: ' ' :: text)

/-- The loop of `app_comm_print_buff`, from the index `i` on. -/
def printBuffFrom : ℕ → List UInt8 → List Char
  | _, [] => []
  | i, b :: data =>
    (if i > 0 ∧ i % 20 = 0 then ['\r', '\n'] else []) ++ (hex 2 b.toNat ++ ' ' :: printBuffFrom (i + 1) data)

/-- `app_comm_print_buff`, with `data` as long as `size` says. -/
def appCommPrintBuff (data : List UInt8) : List Char := printBuffFrom 0 data ++ ['\r', '\n']

/-- The digits among what is printed. -/
def digitsOf (text : List Char) : List Char := text.filter (· ∈ digitChars)

@[simp] theorem digitsOf_append (s t : List Char) : digitsOf (s ++ t) = digitsOf s ++ digitsOf t :=
  List.filter_append ..

@[simp] theorem digitsOf_numeral (b w n : ℕ) : digitsOf (numeral b w n) = numeral b w n :=
  List.filter_eq_self.mpr fun _ hc => decide_eq_true (mem_numeral hc)

theorem digitsOf_printBuffFrom (i : ℕ) (data : List UInt8) :
    digitsOf (printBuffFrom i data) = data.flatMap fun b => hex 2 b.toNat := by
  induction data generalizing i with
  | nil => rfl
  | cons b data ih =>
    have hbreak : digitsOf (if i > 0 ∧ i % 20 = 0 then ['\r', '\n'] else []) = [] := by split <;> rfl
    have hrest : digitsOf (' ' :: printBuffFrom (i + 1) data) = digitsOf (printBuffFrom (i + 1) data) := rfl
    rw [printBuffFrom, digitsOf_append, hbreak, digitsOf_append, digitsOf_numeral, hrest, ih, List.flatMap_cons]
    rfl

/-- **A dump can be read.** -/
theorem readBytes_printBuff (data : List UInt8) : readBytes (digitsOf (appCommPrintBuff data)) = data := by
  have hend : digitsOf ['\r', '\n'] = [] := rfl
  rw [appCommPrintBuff, digitsOf_append, digitsOf_printBuffFrom, hend, List.append_nil, readBytes_flatMap_hex]

/-! ### No message has a bracket but at its tag -/

theorem bracket_notMem_numeral (b w n : ℕ) : '[' ∉ numeral b w n := by
  intro h
  have hdigit : '[' ∈ digitChars := mem_numeral h
  simp [digitChars] at hdigit

theorem bracket_notMem_printBuff (data : List UInt8) : '[' ∉ appCommPrintBuff data := by
  have hfrom : ∀ i, '[' ∉ printBuffFrom i data := by
    induction data with
    | nil =>
      intro i
      exact List.not_mem_nil
    | cons b data ih =>
      intro i h
      rw [printBuffFrom, List.mem_append, List.mem_append, List.mem_cons] at h
      rcases h with h | h | h | h
      · split at h
        · simp at h
        · cases h
      · exact bracket_notMem_numeral _ _ _ h
      · simp at h
      · exact ih (i + 1) h
  rw [appCommPrintBuff, List.mem_append]
  rintro (h | h)
  · exact hfrom 0 h
  · simp at h

end Fr8012haLock.Common
