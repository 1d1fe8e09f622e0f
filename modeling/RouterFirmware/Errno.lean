import Mathlib.Data.Int.Notation

/-!
# Error numbers

Functions of the kernel and of the library beside it return a negative error
number where they fail, as in `return -EINVAL`.  The numbers are those of
Linux, the same in the kernel and in the C library; they are positive here as
they are there, and each function negates the one that it returns.
-/

namespace Errno

def ENOENT : ℤ := 2

def ENOMEM : ℤ := 12

def ENODEV : ℤ := 19

def EINVAL : ℤ := 22

end Errno
