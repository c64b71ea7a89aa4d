-- The error numbers of the system, and the class of failure that each stands for (error.cpp).
import PipeShellX.Result

namespace psx.os

def EPERM : Int := 1
def ENOENT : Int := 2
def ESRCH : Int := 3
def EINTR : Int := 4
def EIO : Int := 5
def EBADF : Int := 9
def ECHILD : Int := 10
def EAGAIN : Int := 11
def EACCES : Int := 13
def EINVAL : Int := 22
def ENFILE : Int := 23
def EMFILE : Int := 24
def EPIPE : Int := 32
def ENOSYS : Int := 38
def ENOTSUP : Int := 95
def ETIMEDOUT : Int := 110

/-- The class that callers look at. -/
def classify (err : Int) : ErrorClass :=
  if err = EINTR then .Interrupted
  else if err = EAGAIN then .WouldBlock
  else if err = EPIPE then .BrokenPipe
  else if err = EBADF then .Closed
  else if err = ENOENT then .NotFound
  else if err = EACCES ∨ err = EPERM then .PermissionDenied
  else if err = EMFILE ∨ err = ENFILE then .TooManyHandles
  else if err = EINVAL then .InvalidArgument
  else if err = ESRCH ∨ err = ECHILD then .NoSuchProcess
  else if err = ETIMEDOUT then .Timeout
  else if err = ENOSYS ∨ err = ENOTSUP then .Unsupported
  else .Other

/-- The error of a call that set `errno`. -/
def fromErrno (op : String) (err : Int) : Error := { cls := classify err, code := err, op }

end psx.os
