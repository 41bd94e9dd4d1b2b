import StoreCache.FetchError
import StoreCache.Json.Tree
import StoreCache.Url
import StoreCache.Utf8

/-!
# Exchanges with a service

A service is **what becomes of a request for each URL**: a reply, or the ways in which none comes.
Asking for a document is one request and one reading of what became of it (`Exchange.read`):

* a request that does not get through, or is broken off, leaves the service unavailable;
* a reply that the document is missing says what the asker takes it to say;
* any other reply but success leaves the service unavailable, and its body is the reason;
* of a success the body must be a document that the asker can read.
-/

namespace StoreCache.Http

/-! ### Replies -/

/-- The body of a reply. -/
inductive Body
  | whole (bytes : List UInt8)
  /-- The reply broke off. -/
  | cut
  deriving DecidableEq, Repr

/-- What became of a request. -/
inductive Exchange
  /-- The service was not reached, or hung up without a reply. -/
  | failed
  /-- No reply came in time. -/
  | timedOut
  | replied (status : Nat) (body : Body)
  deriving DecidableEq, Repr

/-- What becomes of a request for each URL. -/
abbrev Service := Url → Exchange

/-- The standard reasons of the statuses. -/
def reasons : List (Nat × String) :=
  [(100, "Continue"), (101, "Switching Protocols"), (102, "Processing"), (103, "Early Hints"),
   (200, "OK"), (201, "Created"), (202, "Accepted"), (203, "Non Authoritative Information"),
   (204, "No Content"), (205, "Reset Content"), (206, "Partial Content"), (207, "Multi-Status"),
   (208, "Already Reported"), (226, "IM Used"), (300, "Multiple Choices"),
   (301, "Moved Permanently"), (302, "Found"), (303, "See Other"), (304, "Not Modified"),
   (305, "Use Proxy"), (307, "Temporary Redirect"), (308, "Permanent Redirect"),
   (400, "Bad Request"), (401, "Unauthorized"), (402, "Payment Required"), (403, "Forbidden"),
   (404, "Not Found"), (405, "Method Not Allowed"), (406, "Not Acceptable"),
   (407, "Proxy Authentication Required"), (408, "Request Timeout"), (409, "Conflict"),
   (410, "Gone"), (411, "Length Required"), (412, "Precondition Failed"),
   (413, "Payload Too Large"), (414, "URI Too Long"), (415, "Unsupported Media Type"),
   (416, "Range Not Satisfiable"), (417, "Expectation Failed"), (418, "I'm a teapot"),
   (421, "Misdirected Request"), (422, "Unprocessable Entity"), (423, "Locked"),
   (424, "Failed Dependency"), (425, "Too Early"), (426, "Upgrade Required"),
   (428, "Precondition Required"), (429, "Too Many Requests"),
   (431, "Request Header Fields Too Large"), (451, "Unavailable For Legal Reasons"),
   (500, "Internal Server Error"), (501, "Not Implemented"), (502, "Bad Gateway"),
   (503, "Service Unavailable"), (504, "Gateway Timeout"), (505, "HTTP Version Not Supported"),
   (506, "Variant Also Negotiates"), (507, "Insufficient Storage"), (508, "Loop Detected"),
   (510, "Not Extended"), (511, "Network Authentication Required")]

/-- A status with its reason. -/
def statusText (status : Nat) : String :=
  toString status ++ " " ++ (reasons.lookup status).getD "<unknown status code>"

/-- Whether a status says that the request succeeded. -/
def isSuccess (status : Nat) : Bool := 200 ≤ status && status < 300

/-! ### Reading a reply -/

/-- The text of a body, as far as there is one. -/
def Body.text : Body → String
  | .whole bytes => Utf8.repair bytes
  | .cut => ""

/-- Write what is no character as half a character, which is all right in a quoted text as long as
nobody reads it. A half before it may take the first as its other half, so there are two. Behind a
backslash nothing is all right. -/
def escapeStray (escaping : Bool) : List (Option Char) → List Char
  | [] => []
  | some c :: rest => c :: escapeStray (c = '\\' && !escaping) rest
  | none :: rest =>
    (if escaping then [Utf8.replacement] else "\\udc00\\udc00".toList) ++ escapeStray false rest

/-- The document in a body. Bytes that are no text may stand in the parts of it that nobody
reads. -/
def Body.document? : Body → Option Json.Tree
  | .whole bytes =>
    Json.Tree.parse? ((Utf8.text? bytes).getD
      (String.ofList (escapeStray false (Utf8.decodeFrom none bytes))))
  | .cut => none

/-- What a request that did not get through leaves to say. -/
def unreachable (url : Url) : FetchError :=
  .unavailable ("error sending request for url (" ++ url.render ++ ")")

/-- What a body that cannot be read leaves to say. -/
def illegible : FetchError := .unreadable "error decoding response body"

/-- What a reply with another status leaves to say. -/
def refusal (status : Nat) (body : Body) : FetchError :=
  .unavailable ("metadata service returned status " ++ statusText status ++ ": " ++ body.text)

/-- Read what became of a request for a document; `missing` is what it means that there is none. -/
def Exchange.read {α : Type} (url : Url) (missing : FetchError) (read? : Json.Tree → Option α) :
    Exchange → Except FetchError α
  | .failed => .error (unreachable url)
  | .timedOut => .error .timeout
  | .replied status body =>
    if status = 404 then .error missing
    else if isSuccess status then
      match body.document?.bind read? with
      | some a => .ok a
      | none => .error illegible
    else .error (refusal status body)

/-! ### Inquiries -/

/-- What came of the requests that a question took. -/
structure Inquiry (α : Type) where
  /-- The URLs asked for, in order. -/
  urls : List Url
  result : Except FetchError α

namespace Inquiry

/-- Ask for one document. -/
def get {α : Type} (service : Service) (url : Url) (missing : FetchError)
    (read? : Json.Tree → Option α) : Inquiry α :=
  ⟨[url], (service url).read url missing read?⟩

/-- Go on with the result; a failure ends the inquiry. -/
def andThen {α β : Type} (i : Inquiry α) (next : α → Inquiry β) : Inquiry β :=
  match i.result with
  | .error e => ⟨i.urls, .error e⟩
  | .ok a => ⟨i.urls ++ (next a).urls, (next a).result⟩

/-- Look at the result in another way. -/
def mapResult {α β : Type} (i : Inquiry α) (f : Except FetchError α → Except FetchError β) :
    Inquiry β :=
  ⟨i.urls, f i.result⟩

@[simp] theorem urls_get {α : Type} (service : Service) (url : Url) (missing : FetchError)
    (read? : Json.Tree → Option α) : (get service url missing read?).urls = [url] := rfl

@[simp] theorem urls_mapResult {α β : Type} (i : Inquiry α)
    (f : Except FetchError α → Except FetchError β) : (i.mapResult f).urls = i.urls := rfl

end Inquiry

end StoreCache.Http
