import Mathlib.Data.List.Nodup
import RubyOnBareMetal.Errno

namespace RubyOnBareMetal.Syscall

/-!
# The numbers of the dispatcher

The cases of the switch in `ruby_on_bare_metal_syscall`, with the numbers
that select them on x86-64.  Most of them return a constant.
-/

/-- A case of the switch. -/
inductive Nr where
  | read | write | openFile | close | stat | fstat | lstat | poll | lseek
  | mmap | mprotect | munmap | brk | rtSigaction | rtSigprocmask | ioctl
  | pread64 | pwrite64 | writev | access | pipe | schedYield | mremap
  | madvise | dup | dup2 | nanosleep | getpid | clone | fork | vfork
  | execve | exit | wait4 | kill | fcntl | ftruncate | getdents | getcwd
  | chdir | rename | mkdir | rmdir | unlink | symlink | readlink | chmod
  | fchmod | chown | fchown | umask | gettimeofday | getrlimit | getrusage
  | times | getuid | getgid | geteuid | getegid | setpgid | getppid
  | getpgrp | setsid | sigaltstack | prctl | archPrctl | gettid | futex
  | setTidAddress | clockGettime | clockGetres | exitGroup | openat
  | newfstatat | pselect6 | ppoll | setRobustList | eventfd2
  | epollCreate1 | dup3 | pipe2 | getrandom | statx
  deriving Repr, DecidableEq

namespace Nr

/-- The number of a case. -/
def value : Nr → Int64
  | read => 0
  | write => 1
  | openFile => 2
  | close => 3
  | stat => 4
  | fstat => 5
  | lstat => 6
  | poll => 7
  | lseek => 8
  | mmap => 9
  | mprotect => 10
  | munmap => 11
  | brk => 12
  | rtSigaction => 13
  | rtSigprocmask => 14
  | ioctl => 16
  | pread64 => 17
  | pwrite64 => 18
  | writev => 20
  | access => 21
  | pipe => 22
  | schedYield => 24
  | mremap => 25
  | madvise => 28
  | dup => 32
  | dup2 => 33
  | nanosleep => 35
  | getpid => 39
  | clone => 56
  | fork => 57
  | vfork => 58
  | execve => 59
  | exit => 60
  | wait4 => 61
  | kill => 62
  | fcntl => 72
  | ftruncate => 77
  | getdents => 78
  | getcwd => 79
  | chdir => 80
  | rename => 82
  | mkdir => 83
  | rmdir => 84
  | unlink => 87
  | symlink => 88
  | readlink => 89
  | chmod => 90
  | fchmod => 91
  | chown => 92
  | fchown => 93
  | umask => 95
  | gettimeofday => 96
  | getrlimit => 97
  | getrusage => 98
  | times => 100
  | getuid => 102
  | getgid => 104
  | geteuid => 107
  | getegid => 108
  | setpgid => 109
  | getppid => 110
  | getpgrp => 111
  | setsid => 112
  | sigaltstack => 131
  | prctl => 157
  | archPrctl => 158
  | gettid => 186
  | futex => 202
  | setTidAddress => 218
  | clockGettime => 228
  | clockGetres => 229
  | exitGroup => 231
  | openat => 257
  | newfstatat => 262
  | pselect6 => 270
  | ppoll => 271
  | setRobustList => 273
  | eventfd2 => 290
  | epollCreate1 => 291
  | dup3 => 292
  | pipe2 => 293
  | getrandom => 318
  | statx => 332

/-- The cases, in the order of the switch. -/
def all : List Nr := [
  read, write, openFile, close, stat, fstat, lstat, poll, lseek, mmap,
  mprotect, munmap, brk, rtSigaction, rtSigprocmask, sigaltstack, ioctl,
  pread64, pwrite64, writev, access, pipe, pipe2, schedYield, mremap,
  madvise, dup, dup2, dup3, nanosleep, getpid, clone, fork, vfork, execve,
  exit, wait4, kill, fcntl, ftruncate, getdents, getcwd, chdir, rename,
  mkdir, rmdir, unlink, symlink, readlink, chmod, fchmod, chown, fchown,
  umask, gettimeofday, getrlimit, getrusage, times, getuid, getgid,
  geteuid, getegid, getpgrp, getppid, setsid, setpgid, prctl, archPrctl,
  futex, gettid, setTidAddress, setRobustList, clockGettime, clockGetres,
  exitGroup, epollCreate1, pselect6, ppoll, eventfd2, openat, newfstatat,
  getrandom, statx]

/-- The case that a number selects, if it is not the default. -/
def ofLong? (n : Int64) : Option Nr :=
  all.find? fun nr => nr.value = n

/--
What a case returns if it does nothing else.  `lseek`, `pread64`, `mprotect`,
`munmap` and `madvise` have functions of their own.
-/
def constant? : Nr → Option Int64
  | brk => some (-1)
  | rtSigaction | rtSigprocmask | sigaltstack => some 0
  | schedYield | nanosleep => some 0
  | getpid | setTidAddress => some 1
  | clone | fork | vfork | execve => some (-Errno.ENOSYS)
  | wait4 => some (-Errno.ECHILD)
  | kill | ftruncate | getdents | chdir => some 0
  | rename | mkdir | rmdir | unlink | symlink => some (-Errno.EROFS)
  | readlink => some (-Errno.EINVAL)
  | chmod | fchmod | chown | fchown => some 0
  | umask => some 0o22
  | getrusage | times => some (-Errno.ENOSYS)
  | getuid | getgid | geteuid | getegid => some 0
  | getpgrp | setsid | gettid => some 1
  | getppid | setpgid | prctl | futex | setRobustList => some 0
  | epollCreate1 | eventfd2 | statx => some (-Errno.ENOSYS)
  | _ => none

/-- Every case is in the list. -/
theorem mem_all (nr : Nr) : nr ∈ all := by
  cases nr <;> decide

/-- No two cases have one number. -/
theorem value_injective : Function.Injective value := by
  have distinct : (all.map value).Nodup := by decide
  intro first second same
  exact List.inj_on_of_nodup_map distinct (mem_all first)
    (mem_all second) same

/-- A case is selected exactly by its number. -/
theorem ofLong?_eq_some {n : Int64} {nr : Nr} :
    ofLong? n = some nr ↔ n = nr.value := by
  constructor
  · intro found
    have same := List.find?_some found
    exact (of_decide_eq_true same).symm
  · rintro rfl
    cases found : ofLong? nr.value with
    | none =>
        have different := List.find?_eq_none.mp found nr (mem_all nr)
        exact absurd (decide_eq_true rfl) different
    | some other =>
        have same := List.find?_some found
        rw [value_injective (of_decide_eq_true same)]

end Nr

end RubyOnBareMetal.Syscall
