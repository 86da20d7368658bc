import FreeProbe.Server.SyscallContext

/-!
# `Server.FallThrough` — the calls that bpftime leaves alone

A call that bpftime does not handle is to reach the function it was meant for: once, with the caller's arguments, with the
answer handed back, and with no other call that has a lasting effect. Five handlers do so in every mode.

* `handle_epoll_wait` and `handle_munmap` call the original in the modes that are not theirs, and go on.
* `handle_mmap64`, and `handle_mmap` through it, make an anonymous mapping first.
* `handle_openat` calls `open` when it gets no fd for a mocked file.
* `handle_memfd_create` calls `dup3` without the mock.
* A handler that looks at an argument before it hands it on ends the process where that cannot be read: a path, an
  attribute, the name of a kprobe, an event of `epoll_ctl`. The original would have answered with an error.

What of a `bpf` command on an fd that bpftime does not own? Its functions answer with an error, and one with a success.
Whether that is handling the call is left open: `foreign` says so, and the condition follows it.
-/

namespace Server

open Handler (CStr)
open Lib (Prog)

/-- The calls that the library takes the place of. -/
inductive LibcCall where
  | close (fd : Int)
  | openat (fd : Int) (file : Ptr CStr) (oflag : Int) (mode : BitVec 16)
  | openFile (file : Ptr CStr) (oflag : Int) (mode : BitVec 16)
  | read (fd : Int) (buf count : Nat)
  | bpf (cmd : BpfCmd) (attr : Ptr BpfAttr) (size : Nat)
  | perfEventOpen (attr : Ptr PerfEventAttr) (pid cpu groupFd : Int) (flags : Nat)
  | mmap (addr length : Nat) (prot flags : BitVec 32) (fd offset : Int)
  | mmap64 (addr length : Nat) (prot flags : BitVec 32) (fd offset : Int)
  | ioctl (fd : Int) (req data : Nat)
  | epollCreate1 (flags : Int)
  | epollCtl (epfd op fd : Int) (evt : Ptr (BitVec 64))
  | epollWait (epfd : Int) (evt : Nat) (maxevents timeout : Int)
  | munmap (addr size : Nat)
  | fopen (pathname flags : Ptr CStr)
  | dup3 (oldfd newfd flags : Int)
  | memfdCreate (name : Ptr CStr) (flags : Int)

/-- The original function of the same name, with the caller's arguments. -/
def LibcCall.original : LibcCall → OrigCall
  | .close fd => .close fd
  | .openat fd file oflag mode => .openat fd file oflag mode
  | .openFile file oflag mode => .openFile file oflag mode
  | .read fd buf count => .read fd buf count
  | .bpf cmd attr size => origBpf cmd attr size
  | .perfEventOpen attr pid cpu groupFd flags => origPerfEventOpen attr pid cpu groupFd flags
  | .mmap addr length prot flags fd offset => .mmap addr length prot flags fd offset
  | .mmap64 addr length prot flags fd offset => .mmap addr length prot flags fd offset
  | .ioctl fd req data => .ioctl fd req data
  | .epollCreate1 flags => .epollCreate1 flags
  | .epollCtl epfd op fd evt => .epollCtl epfd op fd evt
  | .epollWait epfd evt maxevents timeout => .epollWait epfd evt maxevents timeout
  | .munmap addr size => .munmap addr size
  | .fopen pathname flags => .fopen pathname flags
  | .dup3 oldfd newfd flags => .syscall .dup3 [.int oldfd, .int newfd, .int flags]
  | .memfdCreate name flags => .syscall .memfdCreate [.str name, .int flags]

/-- All calls but the `bpf` commands that only ask. -/
def OrigCall.lasting : OrigCall → Bool
  | .syscall .bpf (.cmd cmd :: _) => !(cmd == .mapLookupElem || cmd == .mapGetNextKey || cmd == .objGetInfoByFd)
  | _ => true

namespace SyscallContext

/-- The wrapper that a call comes to. -/
def handle (rt : Runtime) (ctx : SyscallContext) : LibcCall → Handled
  | .close fd => ctx.handleClose fd
  | .openat fd file oflag mode => handleOpenat rt ctx fd file oflag mode
  | .openFile file oflag mode => handleOpen rt ctx file oflag mode
  | .read fd buf count => ctx.handleRead fd buf count
  | .bpf cmd attr size => handleSysbpf rt ctx cmd attr size
  | .perfEventOpen attr pid cpu groupFd flags => handlePerfevent rt ctx attr pid cpu groupFd flags
  | .mmap addr length prot flags fd offset => handleMmap rt ctx addr length prot flags fd offset
  | .mmap64 addr length prot flags fd offset => handleMmap64 rt ctx addr length prot flags fd offset
  | .ioctl fd req data => handleIoctl rt ctx fd req data
  | .epollCreate1 flags => handleEpollCreate1 rt ctx flags
  | .epollCtl epfd op fd evt => handleEpollCtl rt ctx epfd op fd evt
  | .epollWait epfd evt maxevents timeout => handleEpollWait rt ctx epfd evt maxevents timeout
  | .munmap addr size => ctx.handleMunmap addr size
  | .fopen pathname flags => handleFopen rt ctx pathname flags
  | .dup3 oldfd newfd flags => handleDup3 rt ctx oldfd newfd flags
  | .memfdCreate name flags => handleMemfdCreate rt ctx name flags

/-! ## What bpftime handles

By the mode, the fds that it has given out and the arguments. It is stated without the handlers, from what they are for.
-/

variable {foreign : Bool} {rt : Runtime} {ctx : SyscallContext}

-- the equations of `handle` are generated here, once for the proofs of all the handlers
attribute [local simp] handle LibcCall.original

end SyscallContext

end Server
