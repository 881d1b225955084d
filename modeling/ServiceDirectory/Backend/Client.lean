import ServiceDirectory.Backend.Request
import ServiceDirectory.Backend.Status
import ServiceDirectory.Backend.Url

/-!
# Asking the backend by HTTP

A question becomes a request, which may be sent elsewhere up to ten times. The
reply is the body of the last response if that is a success, whatever bytes it
holds; everything else is an error that names the address asked first. What the
network does with requests is a parameter: it is also for the network to say that
a request gets nowhere since its address is too long.
-/

namespace ServiceDirectory

namespace Network

/-- What a server sends back. -/
structure Response where
  status : Nat
  location : Option String := none
  body : List UInt8 := []
  /-- Whether the body came in full. -/
  isComplete : Bool := true

/-- What becomes of a request. -/
inductive Delivery where
  /-- It does not get anywhere, or is not even sent. -/
  | unreachable
  /-- It arrives, but nothing comes back. -/
  | unanswered
  | answered (response : Response)

end Network

/-- What becomes of each request, by how many have arrived before. -/
abbrev Network := Nat → Url → Network.Delivery

namespace Network

/-- A network without any connections. -/
def isolated : Network := fun _ _ => .unreachable

/-- What came back at last, if anything did, and the requests that arrived on the way. -/
structure Journey where
  response : Option Response := none
  arrived : List Url := []

/-- How often a request may be sent elsewhere. -/
def redirectLimit : Nat := 10

/-- Where a response sends the request on to. -/
def onward? (names : Url.HostNames) (url : Url) (response : Response) : Option Destination :=
  if Status.isRedirect response.status then
    response.location.bind (Url.resolve? names (some url))
  else none

/-- Send a request, and on to where responses send it, at most as often as given. -/
def travel (names : Url.HostNames) (network : Network) : Nat → Nat → Url → Journey
  | redirects, before, url =>
    match network before url with
    | .unreachable => {}
    | .unanswered => { arrived := [url] }
    | .answered response =>
      match onward? names url response, redirects with
      | none, _ => { response := some response, arrived := [url] }
      | some (.web next), redirects + 1 =>
        let journey := network.travel names redirects (before + 1) next
        { journey with arrived := url :: journey.arrived }
      | some _, _ => { arrived := [url] }
termination_by structural redirects => redirects

end Network

inductive ClientError where
  | request (url : String)
  | status (url : String) (code : Nat)
  | body (url : String)
  deriving DecidableEq

def ClientError.message : ClientError → String
  | .request url => "Request to " ++ url ++ " failed"
  | .status url code => url ++ " returned " ++ Status.describe code
  | .body url => "Failed to read body from " ++ url

/-- A client of the backend. -/
structure Client where
  baseUrl : String
  namespaceId : String
  /-- How it writes names of hosts in ASCII. -/
  hostNames : Url.HostNames := .ascii

namespace Client

/-- The base address without the slashes at its end. -/
def base (client : Client) : String :=
  String.ofList (client.baseUrl.toList.reverse.dropWhile (· == '/')).reverse

/-- The address that a question is sent to, without its parameters. -/
def address (client : Client) (query : Query) : String := client.base ++ query.path

/-- The request for a question that lists its clusters like this, if its address is one that can be
asked. -/
def request? (client : Client) (listing : List (String × String)) (query : Query) : Option Url :=
  match Url.resolve? client.hostNames none (client.address query) with
  | some (.web url) => some (url.withForm (query.parameters client.namespaceId listing))
  | _ => none

/-- What a response says, by the address that was asked. -/
def read (address : String) (response : Network.Response) : Except ClientError String :=
  if !Status.isSuccess response.status then .error (.status address response.status)
  else if response.isComplete then .ok (Text.Utf8.textLossy response.body)
  else .error (.body address)

/-- Ask a question that lists its clusters like this, when some requests have arrived before. -/
def ask (client : Client) (listing : List (String × String)) (network : Network) (before : Nat)
    (query : Query) : Except ClientError String × List Url :=
  let address := client.address query
  match client.request? listing query with
  | none => (.error (.request address), [])
  | some url =>
    let journey := network.travel client.hostNames Network.redirectLimit before url
    match journey.response with
    | none => (.error (.request address), journey.arrived)
    | some response => (read address response, journey.arrived)

end Client

end ServiceDirectory
