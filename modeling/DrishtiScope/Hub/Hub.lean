-- What the handlers of requests see of the hub.
structure Hub where
  max   : Int
  count : Int

namespace Hub

def newHub (maxClients : Int) : Hub where
  max   := if maxClients ≤ 0 then 128 else maxClients
  count := 0

def clientCount (h : Hub) : Int :=
  h.count

def maxClients (h : Hub) : Int :=
  h.max

end Hub
