import Mathlib

/-!
# Error numbers and pages
-/

namespace McKernel

def pageShift : Nat := 12

/-- `PAGE_SIZE`. -/
def pageSize : Nat := 4096

/-- The errors that the modelled functions tell apart. -/
inductive Errno where
  | EPERM
  | ENOENT
  | ESRCH
  | EINTR
  | EIO
  | EBADF
  | ECHILD
  | EAGAIN
  | ENOMEM
  | EACCES
  | EFAULT
  | EINVAL
  | EFBIG
  | ENOSYS
  | EOPNOTSUPP
  | ETIMEDOUT
  | ERESTARTSYS
  deriving DecidableEq, Repr

/-- What a function that fails returns: the error number with a minus sign. -/
def Errno.code : Errno → Int
  | EPERM => -1
  | ENOENT => -2
  | ESRCH => -3
  | EINTR => -4
  | EIO => -5
  | EBADF => -9
  | ECHILD => -10
  | EAGAIN => -11
  | ENOMEM => -12
  | EACCES => -13
  | EFAULT => -14
  | EINVAL => -22
  | EFBIG => -27
  | ENOSYS => -38
  | EOPNOTSUPP => -95
  | ETIMEDOUT => -110
  | ERESTARTSYS => -512

end McKernel
