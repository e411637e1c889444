import Mathlib.Data.List.Basic

/-!
# The easy interface of libcurl

What the client relies on of libcurl. `EasyOptions` is what the documentation lets one know about a
handle: every option keeps its value until it is set again. The text of `CURLOPT_POSTFIELDS` is the
one option that is not copied: the handle keeps the pointer, and once the string is destroyed it
keeps a pointer to nothing. `CurlEasy` is any implementation of the calls whose handles hold such
options and put the request they determine on the wire; `CurlEasy.optionRecord` is the one whose
handles are the options themselves.
-/

namespace TradingTerminal

/-- The kind of request a handle is set to, by `CURLOPT_HTTPGET`, `CURLOPT_POST` or
`CURLOPT_POSTFIELDS`. -/
inductive RequestKind where
  | get
  | post
  deriving DecidableEq, Repr

def RequestKind.word : RequestKind → String
  | .get => "GET"
  | .post => "POST"

/-- The options that the client sets on a handle. -/
inductive CurlOption where
  | url (url : String)
  | writeFunction
  | writeData
  | timeout (seconds : Nat)
  | sslVerifyPeer (on : Nat)
  | httpHeader (headers : List String)
  | post
  | postFields (body : String)
  | customRequest (method : String)
  | httpGet
  deriving DecidableEq, Repr

/-- What the pointer of `CURLOPT_POSTFIELDS` points to: a string that lives, or one that is gone, of
which nothing is known. -/
inductive PostFields where
  | lent (body : String)
  | dangling
  deriving DecidableEq, Repr

/-- A request on the wire; `body` is what the post fields point to while it is sent. -/
structure HttpRequest where
  method : String
  url : String
  headers : List String
  body : Option PostFields
  deriving DecidableEq, Repr

structure EasyOptions where
  url : String := ""
  timeout : Nat := 0
  sslVerifyPeer : Nat := 1
  headers : List String := []
  kind : RequestKind := .get
  postFields : Option PostFields := none
  customRequest : Option String := none
  deriving DecidableEq, Repr

namespace EasyOptions

/-- `curl_easy_setopt`. `CURLOPT_POST` and `CURLOPT_HTTPGET` select the kind of request and leave
`CURLOPT_CUSTOMREQUEST` alone; `CURLOPT_POSTFIELDS` implies `CURLOPT_POST`. -/
def set (o : EasyOptions) : CurlOption → EasyOptions
  | .url url => { o with url }
  | .writeFunction => o
  | .writeData => o
  | .timeout seconds => { o with timeout := seconds }
  | .sslVerifyPeer on => { o with sslVerifyPeer := on }
  | .httpHeader headers => { o with headers }
  | .post => { o with kind := .post }
  | .postFields body => { o with kind := .post, postFields := some (.lent body) }
  | .customRequest method => { o with customRequest := some method }
  | .httpGet => { o with kind := .get }

/-- The request the options determine: a custom method replaces the word of the request kind, and a
POST carries the post fields. -/
def request (o : EasyOptions) : HttpRequest where
  method := o.customRequest.getD o.kind.word
  url := o.url
  headers := o.headers
  body := if o.kind = .post then o.postFields else none

/-- The string lent as post fields is destroyed. -/
def expire (o : EasyOptions) : EasyOptions :=
  { o with postFields := o.postFields.map fun _ => .dangling }

end EasyOptions

/-- An implementation of the easy interface: handles with the calls the client makes, each handle
holding documented options. -/
structure CurlEasy where
  Handle : Type
  /-- `curl_easy_init` when it succeeds -/
  init : Handle
  setopt : Handle → CurlOption → Handle
  /-- the request that `curl_easy_perform` sends -/
  sends : Handle → HttpRequest
  /-- the handle once the string lent as post fields is destroyed -/
  expire : Handle → Handle
  options : Handle → EasyOptions
  options_init : options init = {}
  options_setopt : ∀ h o, options (setopt h o) = (options h).set o
  options_expire : ∀ h, options (expire h) = (options h).expire
  sends_eq : ∀ h, sends h = (options h).request

namespace CurlEasy

/-- The implementation whose handles are the options themselves. -/
def optionRecord : CurlEasy where
  Handle := EasyOptions
  init := {}
  setopt := EasyOptions.set
  sends := EasyOptions.request
  expire := EasyOptions.expire
  options := id
  options_init := rfl
  options_setopt _ _ := rfl
  options_expire _ := rfl
  sends_eq _ := rfl

def setopts (curl : CurlEasy) (h : curl.Handle) (os : List CurlOption) : curl.Handle :=
  os.foldl curl.setopt h

theorem options_setopts (curl : CurlEasy) (h : curl.Handle) (os : List CurlOption) :
    curl.options (curl.setopts h os) = os.foldl EasyOptions.set (curl.options h) := by
  unfold setopts
  induction os generalizing h with
  | nil => rfl
  | cons o os ih => rw [List.foldl_cons, List.foldl_cons, ih, curl.options_setopt]

end CurlEasy

end TradingTerminal
