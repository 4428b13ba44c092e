import Ipam.Prefix.Text
import Ipam.Text.Quoted
import Ipam.Uuid

/-!
# Errors

Why a request fails, told by its cause. Each cause has one wording (`message`), and each request
error belongs to one kind (`RequestError.kind`), on which callers act.

The collaborators report errors of their own: a store says what it could not do and to what
(`StoreError`), an allocator gives a code and a text (`AllocatorError`).
-/

namespace Ipam

/-! ## Errors of collaborators -/

/-- Why a store, or a lookup of networks or projects, refuses; each names what it is about. -/
inductive StoreError where
  /-- It is not there. -/
  | notFound (what : String)
  /-- It is there already. -/
  | alreadyExists (what : String)
  /-- It is not as it was when it was read. -/
  | conflict (what : String)
  /-- The store itself failed. -/
  | backend (reason : String)
  deriving DecidableEq, Repr

/-- The wording of a store error. -/
def StoreError.message : StoreError → String
  | .notFound what => what ++ " not found"
  | .alreadyExists what => what ++ " already exists"
  | .conflict what => what ++ " was modified concurrently"
  | .backend reason => "backend failure: " ++ reason

/-- What an allocator complains about. -/
inductive AllocatorCode where
  | notFound
  | alreadyExists
  | invalidArgument
  | unavailable
  | internal
  deriving DecidableEq, Repr

/-- The name of a code. -/
def AllocatorCode.name : AllocatorCode → String
  | .notFound => "not_found"
  | .alreadyExists => "already_exists"
  | .invalidArgument => "invalid_argument"
  | .unavailable => "unavailable"
  | .internal => "internal"

/-- Why an allocator refuses. -/
structure AllocatorError where
  /-- What it complains about. -/
  code : AllocatorCode
  /-- The complaint in words. -/
  detail : String
  deriving DecidableEq, Repr

/-- The wording of an allocator error. -/
def AllocatorError.message (e : AllocatorError) : String :=
  "allocator error (" ++ e.code.name ++ "): " ++ e.detail

/-! ## Errors of requests -/

/-- Why a call was refused or abandoned on behalf of its request. -/
inductive Interruption where
  /-- The request was canceled. -/
  | canceled
  /-- The deadline of the request has passed. -/
  | deadlineExceeded
  deriving DecidableEq, Repr

/-- What is wrong with the arguments of a request. -/
inductive InvalidArgument where
  /-- A specific address and a family exclude each other. -/
  | literalWithFamily
  /-- The specific address is not the text of an address. -/
  | literalUnparsable (literal : String)
  /-- No prefix of the network contains the specific address. -/
  | literalOutside (address : Addr) (network : String)
  /-- The family is not said. -/
  | familyUnspecified
  /-- The network does not offer the family. -/
  | familyAbsent (family : Family) (network : String)
  /-- The retention is not said. -/
  | kindUnspecified
  /-- The project is not said. -/
  | projectMissing
  /-- A text is not an address. -/
  | addressUnparsable (raw : String)
  /-- A text is not an identifier. -/
  | uuidUnparsable (raw : String) (error : Uuid.ParseError)
  /-- A text is not a prefix. -/
  | prefixUnparsable (raw : String)
  /-- The parent prefix is not a prefix. -/
  | parentUnparsable (raw : String)
  /-- A field that a record must have is empty or absent. -/
  | fieldMissing (field : String)
  /-- A text is not the canonical one for its value. -/
  | notCanonical (field raw expected : String)
  /-- The address is not in the parent prefix. -/
  | outsideParent (address : Addr) (parent : Prefix)
  /-- Two tags have the same key. -/
  | duplicateTag (key : String)
  deriving DecidableEq

/-- The wording of what is wrong with arguments. -/
def InvalidArgument.message : InvalidArgument → String
  | .literalWithFamily => "it is not possible to specify specific ip and address family"
  | .literalUnparsable literal =>
    "unable to parse specific ip " ++ Text.quoted literal ++ ": " ++ Addr.syntaxMessage
  | .literalOutside address network =>
    "specific ip " ++ address.text
      ++ " not contained in any of the defined prefixes of network " ++ network
  | .familyUnspecified => "unsupported address family"
  | .familyAbsent family network =>
    "there is no prefix for the given address family " ++ family.name ++ " present in network "
      ++ network
  | .kindUnspecified => "ip type cannot be unspecified"
  | .projectMissing => "project must be given"
  | .addressUnparsable raw => "invalid ip " ++ Text.quoted raw ++ ": " ++ Addr.syntaxMessage
  | .uuidUnparsable raw error => "invalid uuid " ++ Text.quoted raw ++ ": " ++ error.message
  | .prefixUnparsable raw => "invalid prefix " ++ Text.quoted raw ++ ": " ++ Addr.syntaxMessage
  | .parentUnparsable raw =>
    "invalid parent prefix " ++ Text.quoted raw ++ ": " ++ Addr.syntaxMessage
  | .fieldMissing field => field ++ " must be set"
  | .notCanonical field raw expected =>
    field ++ " " ++ Text.quoted raw ++ " is not in canonical form, expected "
      ++ Text.quoted expected
  | .outsideParent address parent =>
    "ip " ++ address.text ++ " is not contained in parent prefix " ++ parent.text
  | .duplicateTag key => "duplicate tag key " ++ Text.quoted key

/-- What stands in the way of a request that is right in itself. -/
inductive Conflict where
  /-- The specific address is handed out already. -/
  | taken (address : Addr)
  /-- What was to be made exists already. -/
  | present (what : String)
  /-- What was to be changed has changed meanwhile. -/
  | modified (what : String)
  deriving DecidableEq

/-- The wording of a conflict. -/
def Conflict.message : Conflict → String
  | .taken address => "ip " ++ address.text ++ " already allocated"
  | .present what => what ++ " already exists"
  | .modified what => what ++ " was modified concurrently"

/-- What a collaborator did that it must not do. -/
inductive BackendFault where
  /-- The store failed. -/
  | storeFailed (reason : String)
  /-- The allocator failed. -/
  | allocatorFailed (error : AllocatorError)
  /-- The allocator reported as taken an address of its own choice. -/
  | takenAtRandom (parent : Prefix)
  /-- The allocator does not know the prefix of a specific address. -/
  | unknownPrefix (parent : Prefix) (address : Addr)
  /-- The allocator answered with a text that is not an address. -/
  | answerUnparsable (raw : String)
  /-- The allocator answered with an address outside the prefix. -/
  | answerOutside (address : Addr) (parent : Prefix)
  /-- The allocator answered with another address than the one asked for. -/
  | answerDiffers (address wanted : Addr)
  deriving DecidableEq

/-- The wording of a fault. -/
def BackendFault.message : BackendFault → String
  | .storeFailed reason => reason
  | .allocatorFailed error => error.message
  | .takenAtRandom parent =>
    "allocator reported a conflict for a random ip in prefix " ++ parent.text
  | .unknownPrefix parent address =>
    "allocator does not know prefix " ++ parent.text ++ " of ip " ++ address.text
  | .answerUnparsable raw =>
    "allocator returned unparsable ip " ++ Text.quoted raw ++ ": " ++ Addr.syntaxMessage
  | .answerOutside address parent =>
    "allocator returned ip " ++ address.text ++ " outside of prefix " ++ parent.text
  | .answerDiffers address wanted =>
    "allocator returned ip " ++ address.text ++ " instead of requested " ++ wanted.text

/-- Why a request fails. -/
inductive RequestError where
  /-- The request is wrong in itself. -/
  | invalid (cause : InvalidArgument)
  /-- The network belongs to another project and is not shared. -/
  | notShared (project owner : String)
  /-- What the request is about does not exist, or not for its project. -/
  | notFound (what : String)
  /-- Something stands in the way. -/
  | conflict (cause : Conflict)
  /-- No prefix of the family has a free address. -/
  | exhausted (family : Family) (network : String)
  /-- A collaborator is at fault. -/
  | internal (fault : BackendFault)
  /-- The request was given up before it was done. -/
  | interrupted (cause : Interruption)
  deriving DecidableEq

/-- The kinds of request errors, on which callers act. -/
inductive ErrorKind where
  | invalidArgument
  | permissionDenied
  | notFound
  | conflict
  | resourceExhausted
  | internal
  | canceled
  | deadlineExceeded
  deriving DecidableEq, Repr

/-- The name of a kind. -/
def ErrorKind.name : ErrorKind → String
  | .invalidArgument => "invalid_argument"
  | .permissionDenied => "permission_denied"
  | .notFound => "not_found"
  | .conflict => "conflict"
  | .resourceExhausted => "resource_exhausted"
  | .internal => "internal"
  | .canceled => "canceled"
  | .deadlineExceeded => "deadline_exceeded"

namespace RequestError

/-- The kind of a request error. -/
def kind : RequestError → ErrorKind
  | .invalid _ => .invalidArgument
  | .notShared .. => .permissionDenied
  | .notFound _ => .notFound
  | .conflict _ => .conflict
  | .exhausted .. => .resourceExhausted
  | .internal _ => .internal
  | .interrupted .canceled => .canceled
  | .interrupted .deadlineExceeded => .deadlineExceeded

/-- The wording of a request error. -/
def message : RequestError → String
  | .invalid cause => "invalid argument: " ++ cause.message
  | .notShared project owner =>
    "permission denied: can not allocate ip for project " ++ Text.quoted project
      ++ " because network belongs to " ++ Text.quoted owner ++ " and the network is not shared"
  | .notFound what => "not found: " ++ what ++ " not found"
  | .conflict cause => "conflict: " ++ cause.message
  | .exhausted family network =>
    "resource exhausted: cannot allocate free " ++ family.name ++ " ip in network " ++ network
      ++ ", no ips left"
  | .internal fault => "internal error: " ++ fault.message
  | .interrupted .canceled => "request canceled"
  | .interrupted .deadlineExceeded => "request deadline exceeded"

/-- What an error of a store or a lookup means for the request. -/
def ofStore : StoreError → RequestError
  | .notFound what => .notFound what
  | .alreadyExists what => .conflict (.present what)
  | .conflict what => .conflict (.modified what)
  | .backend reason => .internal (.storeFailed reason)

end RequestError

end Ipam
