import Mathlib.Data.Nat.Notation

namespace RubyOnBareMetal.Errno

/-!
# Error numbers

The values of `errno.h` on x86-64 that the allocator and the system call
layer report.  The allocator returns them as they are, the system calls
return them negated.
-/

def ENOENT : Int64 := 2
def EBADF : Int64 := 9
def ECHILD : Int64 := 10
def ENOMEM : Int64 := 12
def EINVAL : Int64 := 22
def EMFILE : Int64 := 24
def ENOTTY : Int64 := 25
def EROFS : Int64 := 30
def ENOSYS : Int64 := 38

end RubyOnBareMetal.Errno
