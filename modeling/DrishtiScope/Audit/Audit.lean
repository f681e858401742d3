import DrishtiScope.Go.Strings

open Go

-- Security-relevant events in the log of the daemon.
namespace Audit

def sanitize (s : Bytes) : Bytes :=
  let s := (s.replaceByte 10 32).replaceByte 13 32
  if 200 < s.length then s.take 200 ++ str "…" else s

structure Line where
  action : Bytes
  ip     : Bytes
  result : Bytes
  detail : Bytes
  deriving DecidableEq

def event (action ip result detail : Bytes) : Line where
  action := sanitize action
  ip     := sanitize ip
  result := sanitize result
  detail := sanitize detail

end Audit
