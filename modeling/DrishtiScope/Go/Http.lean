import DrishtiScope.Go.Url

-- `net/http`, as far as the handlers of a server go.
namespace Go

-- `textproto.CanonicalMIMEHeaderKey` of a valid name: capitals at the start and after each hyphen.
def canonicalHeaderKey (key : Bytes) : Bytes :=
  go true key
where
  go : Bool → Bytes → Bytes
    | _, []         => []
    | upper, b :: s => 
      let b' :=
        if upper ∧ 97 ≤ b ∧ b ≤ 122 then
          b - 32
        else if ¬upper ∧ 65 ≤ b ∧ b ≤ 90 then
          b + 32
        else
          b
      b' :: go (b = 45) s

-- The names are canonical.
abbrev Header := List (Bytes × Bytes)

namespace Header

def get (h : Header) (key : Bytes) : Bytes :=
  h.lookup (canonicalHeaderKey key) |>.getD []

def set (h : Header) (key value : Bytes) : Header :=
  h.filter (·.fst ≠ canonicalHeaderKey key) ++ [(canonicalHeaderKey key, value)]

theorem get_set {h : Header} {key value : Bytes} : (h.set key value).get key = value := by
  have hn : List.lookup (canonicalHeaderKey key) (h.filter (·.fst ≠ canonicalHeaderKey key)) = none := by
    rw [List.lookup_eq_none_iff]
    intro p hp
    have hk := of_decide_eq_true (List.mem_filter.mp hp).right
    simpa using Ne.symm hk
  rw [set, get, List.lookup_append, hn, List.lookup_cons_self]
  rfl

theorem get_set_of_ne {h : Header} {key key' value : Bytes} 
    (hk : canonicalHeaderKey key' ≠ canonicalHeaderKey key) : 
    (h.set key value).get key' = h.get key' := by
  simp only [set, get]
  congr 1
  induction h
  case nil         => 
    have hb : (canonicalHeaderKey key' == canonicalHeaderKey key) = false := by simp [hk]
    simp [List.lookup_cons, hb]
  case cons p h hi =>
    by_cases hp : p.fst = canonicalHeaderKey key
    case pos =>
      have hb : (canonicalHeaderKey key' == p.fst) = false := by simp [hp, hk]
      rw [List.filter_cons_of_neg (by simp [hp]), hi, List.lookup_cons, hb]
    case neg =>
      rw [List.filter_cons_of_pos (by simp [hp]), List.cons_append, List.lookup_cons, 
        List.lookup_cons, hi]

end Header

def methodGet := str "GET"
def methodPost := str "POST"
def methodOptions := str "OPTIONS"
def methodConnect := str "CONNECT"

-- `path` is decoded, `escapedPath` is as in the request line. A body is read up to its limit.
structure Request where
  method      : Bytes
  path        : Bytes
  escapedPath : Bytes
  rawQuery    : Bytes
  header      : Header
  remoteAddr  : Bytes
  isTLS       : Bool
  body        : Bytes
  bodyLimit   : Option Int

namespace Request

def query (r : Request) : Values :=
  Values.parseQuery r.rawQuery

-- `http.MaxBytesReader`.
def limitBody (r : Request) (n : Int) : Request :=
  { r with bodyLimit := some <| (r.bodyLimit.map (min n)).getD n }

-- What a reader gets of the body, and whether this is all of it.
def readBody (r : Request) : Bytes × Bool :=
  match r.bodyLimit with
  | none   => (r.body, true)
  | some n => (r.body.take n.toNat, r.body.length ≤ n.toNat)

end Request

-- The status and the header are sent once. What is written to the body may be a value that stands for
-- its encoding.
structure ResponseWriter (β : Type) where
  header : Header              := []
  sent   : Option (Nat × Header) := none
  body   : List β              := []

structure Response (β : Type) where
  status : Nat
  header : Header
  body   : List β

namespace ResponseWriter

variable {β : Type}

def set (w : ResponseWriter β) (key value : Bytes) : ResponseWriter β :=
  { w with header := w.header.set key value }

def setAll (w : ResponseWriter β) (header : Header) : ResponseWriter β :=
  header.foldl (fun w (key, value) => w.set key value) w

def writeHeader (w : ResponseWriter β) (status : Nat) : ResponseWriter β :=
  { w with sent := some <| w.sent.getD (status, w.header) }

def write (w : ResponseWriter β) (b : β) : ResponseWriter β :=
  let w := w.writeHeader 200
  { w with body := w.body ++ [b] }

-- What the client gets when the handler has returned.
def response (w : ResponseWriter β) : Response β :=
  let (status, header) := w.sent.getD (200, w.header)
  { status, header, body := w.body }

end ResponseWriter

-- `path.Clean`, except that a slash at the end is kept.
def cleanPath (p : Bytes) : Bytes :=
  let names := (p.splitByte 47).foldl (fun names name =>
    if name = [] ∨ name = str "." then 
      names 
    else if name = str ".." then 
      names.dropLast 
    else 
      names ++ [name]) []
  let np := 47 :: [47].intercalate names
  if names ≠ [] ∧ p.getLast? = some 47 then np ++ [47] else np

namespace ServeMux

-- Requests for other paths are redirected to the clean one.
def isCanonical (r : Request) : Bool :=
  r.method = methodConnect || cleanPath r.escapedPath = r.escapedPath

-- A pattern without wildcards and without a slash at its end. The names of the path are compared
-- after they have been decoded one by one.
def isMatch (pattern : Bytes) (r : Request) : Bool :=
  let names : List Bytes := (r.escapedPath.splitByte 47).map fun name => 
    (Bytes.pathUnescape name).getD name
  pattern.splitByte 47 = names

end ServeMux
end Go
