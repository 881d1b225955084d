import ServiceDirectory.Backend.Client
import ServiceDirectory.Proofs.Addresses

/-!
# What passes between a client and its backend

A question is put to the address of the backend as a form, and the clusters of a batch
are a JSON object inside that form, with its members in any order. The backend reads
the arguments from there as they were given, whatever characters they hold, so no two
questions have one request. The way back is as plain: the body of the last response is
the reply if that response is a success, and anything else is an error.
-/

namespace ServiceDirectory

open Text

/-! ## Parameters -/

namespace Query

/-- The parameters that tell a namespace and the arguments of a question, each of them once. The
clusters of a batch are told by a text that is read as their map. -/
def ToldBy (namespaceId : String) (pairs : List (String × String)) : Query → Prop
  | .single name clusters port healthyOnly =>
    pairs = [("namespaceId", namespaceId), ("serviceName", name), ("clusters", clusters),
      ("udpPort", toString port.toNat), ("healthyOnly", toString healthyOnly)]
  | .batch names clusters port healthyOnly findBack =>
    ∃ object, (Json.parse? object).bind textMap? = some clusters ∧
      pairs = [("namespaceId", namespaceId), ("serviceNames", names), ("clusters", object),
        ("udpPort", toString port.toNat), ("healthyOnly", toString healthyOnly),
        ("findBack", toString findBack)]
  | .catalog namespaceId group clusters =>
    pairs = [("namespaceId", namespaceId), ("groupName", group), ("clusters", clusters)]

theorem flagText_eq (flag : Bool) : flagText flag = toString flag := by cases flag <;> rfl

theorem portText_eq (port : UInt16) : portText port = toString port.toNat := rfl

theorem toString_toNat_inj {p q : UInt16} (h : toString p.toNat = toString q.toNat) : p = q := by
  have hdigits : Nat.toDigits 10 p.toNat = Nat.toDigits 10 q.toNat := String.ofList_injective h
  apply UInt16.toNat_inj.mp
  rw [← Numeral.natOfDigits_toDigits p.toNat, hdigits, Numeral.natOfDigits_toDigits]

theorem toString_bool_inj {b c : Bool} (h : toString b = toString c) : b = c := by
  revert h
  cases b <;> cases c <;> decide

/-- An object of texts is read as a map, whatever the order of its members and their spelling. -/
theorem textMap?_of_spelled {clusters : KeyMap String String} {entries : List (String × String)}
    (hentries : entries.Perm clusters.entries) {object : String}
    (h : (Json.record (entries.map fun e => (e.1, Json.ofString e.2))).Spelled object) :
    (Json.parse? object).bind textMap? = some clusters := by
  rw [Json.parse?_of_spelled h, Option.bind_some, textMap?_record, KeyMap.ofList_of_perm hentries]

theorem toldBy_parameters (namespaceId : String) {query : Query}
    {listing : List (String × String)} (hlisting : query.IsListedBy listing) :
    query.ToldBy namespaceId (query.parameters namespaceId listing) := by
  cases query with
  | single name clusters port healthyOnly =>
      simp only [ToldBy, parameters, flagText_eq, portText_eq]
  | batch names clusters port healthyOnly findBack =>
      refine ⟨(textsJson listing).print, ?_, ?_⟩
      · exact textMap?_of_spelled hlisting (spellable_textsJson listing).spelled_print
      · simp only [parameters, flagText_eq, portText_eq]
  | catalog namespaceId group clusters => rfl

/-- The parameters of a question tell it from all others. -/
theorem ToldBy.unique {namespaceId namespaceId' : String} {pairs : List (String × String)}
    {query query' : Query} (h : query.ToldBy namespaceId pairs)
    (h' : query'.ToldBy namespaceId' pairs) : query = query' := by
  -- Questions of different kinds differ in the number of their parameters.
  cases query with
  | single name clusters port healthyOnly =>
      rw [ToldBy] at h
      subst h
      cases query' with
      | single name' clusters' port' healthyOnly' =>
          simp only [ToldBy, List.cons.injEq, Prod.mk.injEq, true_and, and_true] at h'
          obtain ⟨-, rfl, rfl, hport, hhealthy⟩ := h'
          rw [toString_toNat_inj hport, toString_bool_inj hhealthy]
      | batch => simp [ToldBy] at h'
      | catalog => simp [ToldBy] at h'
  | batch names clusters port healthyOnly findBack =>
      obtain ⟨object, hobject, rfl⟩ := h
      cases query' with
      | single => simp [ToldBy] at h'
      | batch names' clusters' port' healthyOnly' findBack' =>
          obtain ⟨object', hobject', hpairs⟩ := h'
          simp only [List.cons.injEq, Prod.mk.injEq, true_and, and_true] at hpairs
          obtain ⟨-, rfl, rfl, hport, hhealthy, hback⟩ := hpairs
          obtain rfl := Option.some.inj (hobject.symm.trans hobject')
          rw [toString_toNat_inj hport, toString_bool_inj hhealthy, toString_bool_inj hback]
      | catalog => simp [ToldBy] at h'
  | catalog namespaceId group clusters =>
      rw [ToldBy] at h
      subst h
      cases query' with
      | single => simp [ToldBy] at h'
      | batch => simp [ToldBy] at h'
      | catalog namespaceId' group' clusters' =>
          simp only [ToldBy, List.cons.injEq, Prod.mk.injEq, true_and, and_true] at h'
          obtain ⟨rfl, rfl, rfl⟩ := h'
          rfl

theorem parameters_ne_nil (namespaceId : String) (listing : List (String × String))
    (query : Query) : query.parameters namespaceId listing ≠ [] := by
  cases query <;> simp [parameters]

theorem continues_path (query : Query) : Url.Continues "nacos".toList query.path.toList := by
  constructor
  · cases query with
    | single => exact ⟨"v1/ns/instance/list".toList, by simp [path]⟩
    | batch => exact ⟨"v1/ns/instance/list/multi".toList, by simp [path]⟩
    | catalog => exact ⟨"v1/ns/catalog/services".toList, by simp [path]⟩
  · cases query <;> simp [path, Url.isControlOrSpace]

theorem not_mem_path (query : Query) : '?' ∉ query.path.toList := by
  cases query <;> simp [path]

end Query

/-! ## Final responses -/

namespace Network

/-- A request gets a final response: one that sends it nowhere, after all that sent it on. The
requests that arrive on the way are told by their addresses. -/
inductive Answers (names : Url.HostNames) (network : Network) :
    Nat → Url → List Url → Response → Prop
  | final {before : Nat} {url : Url} {response : Response}
      (hanswer : network before url = .answered response)
      (hfinal : onward? names url response = none) :
      Answers names network before url [url] response
  | onward {before : Nat} {url next : Url} {response last : Response} {arrived : List Url}
      (hanswer : network before url = .answered response)
      (hnext : onward? names url response = some (.web next))
      (h : Answers names network (before + 1) next arrived last) :
      Answers names network before url (url :: arrived) last

variable {names : Url.HostNames} {network : Network} {redirects before : Nat} {url : Url}
  {arrived : List Url} {response : Response}

theorem Answers.ne_nil (h : network.Answers names before url arrived response) : arrived ≠ [] := by
  cases h <;> simp

theorem travel_of_final (redirects : Nat) (hanswer : network before url = .answered response)
    (hfinal : onward? names url response = none) :
    network.travel names redirects before url =
      { response := some response, arrived := [url] } := by
  rw [travel.eq_def]
  dsimp only
  rw [hanswer]
  simp only [hfinal]

theorem travel_of_onward {next : Url} (hanswer : network before url = .answered response)
    (hnext : onward? names url response = some (.web next)) :
    network.travel names (redirects + 1) before url =
      { network.travel names redirects (before + 1) next with
        arrived := url :: (network.travel names redirects (before + 1) next).arrived } := by
  rw [travel.eq_def]
  dsimp only
  rw [hanswer]
  simp only [hnext]

/-- A journey that gets a response has it at once, or after it was sent on. -/
theorem travel_cases (h : (network.travel names redirects before url).response = some response) :
    (network before url = .answered response ∧ onward? names url response = none) ∨
    ∃ fewer first next, redirects = fewer + 1 ∧ network before url = .answered first ∧
      onward? names url first = some (.web next) ∧
      (network.travel names fewer (before + 1) next).response = some response := by
  rw [travel.eq_def] at h
  dsimp only at h
  cases hanswer : network before url with
  | unreachable => simp [hanswer] at h
  | unanswered => simp [hanswer] at h
  | answered first =>
      rw [hanswer] at h
      dsimp only at h
      split at h
      · rename_i hfinal
        obtain rfl := Option.some.inj h
        exact .inl ⟨rfl, hfinal⟩
      · rename_i next fewer hnext
        exact .inr ⟨fewer, first, next, rfl, rfl, hnext, h⟩
      · cases h

/-- A journey goes as far as its redirects allow. -/
theorem travel_of_answers (h : network.Answers names before url arrived response)
    (hfew : arrived.length ≤ redirects + 1) :
    network.travel names redirects before url = { response := some response, arrived } := by
  induction h generalizing redirects with
  | final hanswer hfinal => exact travel_of_final redirects hanswer hfinal
  | @onward before url next response last arrived hanswer hnext h ih =>
      have hlength : 0 < arrived.length := List.length_pos_iff.mpr h.ne_nil
      rw [List.length_cons] at hfew
      obtain ⟨fewer, rfl⟩ : ∃ fewer, redirects = fewer + 1 := ⟨redirects - 1, by omega⟩
      rw [travel_of_onward hanswer hnext, ih (by omega)]

theorem answers_of_travel
    (h : (network.travel names redirects before url).response = some response) :
    network.Answers names before url (network.travel names redirects before url).arrived response ∧
      (network.travel names redirects before url).arrived.length ≤ redirects + 1 := by
  induction redirects using Nat.strongRecOn generalizing before url with
  | ind redirects ih =>
      rcases travel_cases h with ⟨hanswer, hfinal⟩ | ⟨fewer, _, next, rfl, hanswer, hnext, hrest⟩
      · rw [travel_of_final redirects hanswer hfinal]
        exact ⟨.final hanswer hfinal, by simp⟩
      · obtain ⟨hanswers, hfew⟩ := ih fewer (Nat.lt_succ_self fewer) hrest
        rw [travel_of_onward hanswer hnext]
        exact ⟨.onward hanswer hnext hanswers, by simpa using hfew⟩

/-- The first request that arrives is the one that is sent. -/
theorem eq_of_mem_head?_arrived {first : Url}
    (h : first ∈ (network.travel names redirects before url).arrived.head?) : first = url := by
  rw [travel.eq_def] at h
  dsimp only at h
  cases hanswer : network before url with
  | unreachable => simp [hanswer] at h
  | unanswered => simpa [hanswer] using h.symm
  | answered response =>
      rw [hanswer] at h
      dsimp only at h
      split at h <;> simpa using h.symm

end Network

/-! ## Clients -/

namespace Client

variable {client : Client} {listing : List (String × String)} {query : Query} {network : Network}
  {before : Nat} {url : Url} {arrived : List Url} {response : Network.Response}

theorem not_mem_base {mark : Char} (h : mark ∉ client.baseUrl.toList) :
    mark ∉ client.base.toList := by
  rw [base, String.toList_ofList, List.mem_reverse]
  exact fun hmem => h (List.mem_reverse.mp (List.dropWhile_subset _ hmem))

theorem request?_eq_some_iff : client.request? listing query = some url ↔
    ∃ bare, Url.resolve? client.hostNames none (client.address query) = some (.web bare) ∧
      url = bare.withForm (query.parameters client.namespaceId listing) := by
  rw [request?]
  cases hresolve : Url.resolve? client.hostNames none (client.address query) with
  | none => simp
  | some destination =>
      cases destination with
      | foreign => simp
      | web bare => simp [eq_comm]

/-- The form of a request is read as the parameters of its question. -/
theorem decode_target (hquery : '?' ∉ client.baseUrl.toList)
    (h : client.request? listing query = some url) :
    Form.decode (Api.Target.ofString url.target).query =
      query.parameters client.namespaceId listing := by
  obtain ⟨bare, hresolve, rfl⟩ := request?_eq_some_iff.mp h
  have haddress : '?' ∉ (client.address query).toList := by
    rw [address, String.toList_append, List.mem_append, not_or]
    exact ⟨not_mem_base hquery, query.not_mem_path⟩
  have hbare : bare.IsBare := Url.isBare_of_resolve? haddress hresolve
  rw [hbare.ofString_withForm (query.parameters_ne_nil _ _), Form.decode_encode]

/-- The form of a request tells the namespace and the arguments, in whatever order the clusters are
listed. -/
theorem toldBy_request? (hquery : '?' ∉ client.baseUrl.toList)
    (hlisting : query.IsListedBy listing) (h : client.request? listing query = some url) :
    query.ToldBy client.namespaceId (Form.decode (Api.Target.ofString url.target).query) := by
  rw [decode_target hquery h]
  exact Query.toldBy_parameters _ hlisting

/-- Whether there is a request is settled by the address of the backend. -/
theorem isSome_request?_iff (hfragment : '#' ∉ client.baseUrl.toList) :
    (client.request? listing query).isSome ↔
      ∃ scheme rest, Url.scheme? (Url.opening client.base) = some (scheme, rest) ∧
        (scheme = "http" ∨ scheme = "https") ∧
        (Url.authority? client.hostNames (scheme == "https")
          (Url.authorityText (rest ++ '/' :: "nacos".toList))).isSome := by
  have hsegment : ∃ c ∈ "nacos".toList, Url.isSlash c = false := ⟨'n', by decide, by decide⟩
  rw [← Url.exists_web_iff (not_mem_base hfragment) query.continues_path hsegment,
    Option.isSome_iff_exists]
  simp only [request?_eq_some_iff]
  constructor
  · rintro ⟨_, bare, hresolve, -⟩
    exact ⟨bare, hresolve⟩
  · rintro ⟨bare, hresolve⟩
    exact ⟨_, bare, hresolve, rfl⟩

/-- The first request that arrives is the one for the question. -/
theorem request?_of_mem_head? {first : Url}
    (h : first ∈ (client.ask listing network before query).2.head?) :
    client.request? listing query = some first := by
  rw [ask] at h
  cases hrequest : client.request? listing query with
  | none => simp [hrequest] at h
  | some url =>
      rw [hrequest] at h
      have harrived : first ∈
          (network.travel client.hostNames Network.redirectLimit before url).arrived.head? := by
        dsimp only at h
        split at h <;> exact h
      rw [Network.eq_of_mem_head?_arrived harrived]

/-- A final response is read, if it is reached within the limit. -/
theorem ask_of_answers (hrequest : client.request? listing query = some url)
    (h : network.Answers client.hostNames before url arrived response)
    (hfew : arrived.length ≤ Network.redirectLimit + 1) :
    client.ask listing network before query =
      (read (client.address query) response, arrived) := by
  simp only [ask, hrequest, Network.travel_of_answers h hfew]

theorem read_eq_ok_iff {address text : String} : read address response = .ok text ↔
    Status.isSuccess response.status = true ∧ response.isComplete = true ∧
      text = Utf8.textLossy response.body := by
  cases hsuccess : Status.isSuccess response.status <;>
    cases hcomplete : response.isComplete <;> simp [read, hsuccess, hcomplete, eq_comm]

/-- A reply is what a final response within the limit says. -/
theorem ask_eq_ok_iff {text : String} :
    (client.ask listing network before query).1 = .ok text ↔
      ∃ url arrived response, client.request? listing query = some url ∧
        network.Answers client.hostNames before url arrived response ∧
        arrived.length ≤ Network.redirectLimit + 1 ∧
        read (client.address query) response = .ok text := by
  constructor
  · intro h
    rw [ask] at h
    cases hrequest : client.request? listing query with
    | none => simp [hrequest] at h
    | some url =>
        cases hresponse :
            (network.travel client.hostNames Network.redirectLimit before url).response with
        | none => simp [hrequest, hresponse] at h
        | some response =>
            simp only [hrequest, hresponse] at h
            obtain ⟨hanswers, hfew⟩ := Network.answers_of_travel hresponse
            exact ⟨url, _, response, rfl, hanswers, hfew, h⟩
  · rintro ⟨url, arrived, response, hrequest, hanswers, hfew, hread⟩
    rw [ask_of_answers hrequest hanswers hfew]
    exact hread

theorem isSuccess_iff {code : Nat} : Status.isSuccess code = true ↔ 200 ≤ code ∧ code < 300 := by
  simp [Status.isSuccess]

/-- Questions and replies pass between a client and its backend without loss, in whatever order the
clusters of a batch are listed. -/
structure IsLossless (client : Client) : Prop where
  /-- There are requests for all questions, or for none. Long ones may still get nowhere. -/
  asked : ∀ query listing other listing',
    (client.request? listing query).isSome = (client.request? listing' other).isSome
  /-- What arrives first is the request for the question. -/
  sent : ∀ listing network before query, ∀ url ∈ (client.ask listing network before query).2.head?,
    client.request? listing query = some url
  /-- The form of a request tells the namespace and the arguments. -/
  told : ∀ query listing url, query.IsListedBy listing → client.request? listing query = some url →
    query.ToldBy client.namespaceId (Form.decode (Api.Target.ofString url.target).query)
  /-- Clusters are read from an object that has them in any order, in whatever spelling. -/
  unordered : ∀ (clusters : KeyMap String String) (entries : List (String × String)) object,
    entries.Perm clusters.entries →
    (Json.record (entries.map fun e => (e.1, Json.ofString e.2))).Spelled object →
    (Json.parse? object).bind textMap? = some clusters
  /-- Requests with one target are for one question. -/
  distinct : ∀ query listing other listing' url url', query.IsListedBy listing →
    other.IsListedBy listing' → client.request? listing query = some url →
    client.request? listing' other = some url' → url.target = url'.target → query = other
  /-- The text of a final success is the reply. -/
  success : ∀ listing network before query url arrived response text,
    client.request? listing query = some url →
    network.Answers client.hostNames before url arrived response →
    arrived.length ≤ Network.redirectLimit + 1 → 200 ≤ response.status ∧ response.status < 300 →
    response.isComplete = true → response.body = Utf8.encode text →
    client.ask listing network before query = (.ok text, arrived)
  /-- Any other final status is an error. -/
  failure : ∀ listing network before query url arrived response,
    client.request? listing query = some url →
    network.Answers client.hostNames before url arrived response →
    arrived.length ≤ Network.redirectLimit + 1 → ¬ (200 ≤ response.status ∧ response.status < 300) →
    client.ask listing network before query =
      (.error (.status (client.address query) response.status), arrived)
  /-- There are no replies but those of final successes. -/
  only : ∀ listing network before query text,
    (client.ask listing network before query).1 = .ok text →
    ∃ url arrived response, client.request? listing query = some url ∧
      network.Answers client.hostNames before url arrived response ∧
      arrived.length ≤ Network.redirectLimit + 1 ∧
      (200 ≤ response.status ∧ response.status < 300) ∧ response.isComplete = true ∧
      text = Utf8.textLossy response.body

/-- A client whose address has neither a query nor a fragment loses nothing, however it writes names
of hosts: the backend reads the namespace and the arguments of each question from its request, so
that no two questions have one request, and the client gets the text of a final success unchanged,
and an error otherwise. -/
theorem requests_lossless (client : Client) (hquery : '?' ∉ client.baseUrl.toList)
    (hfragment : '#' ∉ client.baseUrl.toList) : client.IsLossless where
  asked query listing other listing' := by
    rw [Bool.eq_iff_iff, isSome_request?_iff hfragment, isSome_request?_iff hfragment]
  sent _ _ _ _ _ := request?_of_mem_head?
  told _ _ _ := toldBy_request? hquery
  unordered _ _ _ hentries h := Query.textMap?_of_spelled hentries h
  distinct query listing other listing' url url' hlisting hlisting' h h' htarget := by
    have hother := toldBy_request? hquery hlisting' h'
    rw [← htarget] at hother
    exact (toldBy_request? hquery hlisting h).unique hother
  success listing network before query url arrived response text h hanswers hfew hstatus hcomplete
      hbody := by
    have hread : read (client.address query) response = .ok text :=
      read_eq_ok_iff.mpr ⟨isSuccess_iff.mpr hstatus, hcomplete, by
        rw [hbody, Utf8.textLossy_encode]⟩
    rw [ask_of_answers h hanswers hfew, hread]
  failure listing network before query url arrived response h hanswers hfew hstatus := by
    have hfalse : Status.isSuccess response.status = false :=
      Bool.eq_false_iff.mpr fun hsuccess => hstatus (isSuccess_iff.mp hsuccess)
    rw [ask_of_answers h hanswers hfew, read, hfalse]
    rfl
  only listing network before query text h := by
    obtain ⟨url, arrived, response, hrequest, hanswers, hfew, hread⟩ := ask_eq_ok_iff.mp h
    obtain ⟨hsuccess, hcomplete, htext⟩ := read_eq_ok_iff.mp hread
    exact ⟨url, arrived, response, hrequest, hanswers, hfew, isSuccess_iff.mp hsuccess, hcomplete,
      htext⟩

/-- A client whose namespace looks like a part of a form, and whose backend has a name that is not
ASCII. -/
def edgeClient : Client where
  baseUrl := " HTTP://BÜCHER.example:8848/nacos.d//"
  namespaceId := "a=b&c"
  hostNames name :=
    if name = "BÜCHER.example" then some "xn--bcher-kva.example" else Url.HostNames.ascii name

/-- A question whose names look like parts of forms and of JSON. -/
def edgeQuery : Query :=
  .batch "x,ü+%2B" (KeyMap.ofList [("\"x\": ", "1,2"), ("ü+%2B", "a&b=\\")]) 5353 false true

/-- The clusters of the question, not in key order. -/
def edgeListing : List (String × String) := [("ü+%2B", "a&b=\\"), ("\"x\": ", "1,2")]

/-- A network that sends the first request to another path, and answers there. -/
def movedNetwork : Network
  | 0, _ => .answered { status := 307, location := some "/moved" }
  | _, _ => .answered { status := 206, body := Utf8.encode "[\"ü\"]" }

/-- There is a request for the question, it tells all of it, and the answer comes back unchanged
from where the request was sent on to. -/
theorem edgeQuery_passes :
    edgeQuery.IsListedBy edgeListing ∧
      ∃ url, edgeClient.request? edgeListing edgeQuery = some url ∧
        url.host = .name "xn--bcher-kva.example" ∧
        edgeQuery.ToldBy "a=b&c" (Form.decode (Api.Target.ofString url.target).query) ∧
        edgeClient.ask edgeListing movedNetwork 0 edgeQuery =
          (.ok "[\"ü\"]", [url, { url with path := ["moved"], query := none }]) := by
  have hlossless := requests_lossless edgeClient (by decide) (by decide)
  have hlisting : edgeQuery.IsListedBy edgeListing := by
    rw [Query.IsListedBy]
    decide +kernel
  obtain ⟨url, hurl, hhost⟩ : ∃ url ∈ edgeClient.request? edgeListing edgeQuery,
      url.host = .name "xn--bcher-kva.example" := by
    decide +kernel
  have hanswers : movedNetwork.Answers edgeClient.hostNames 0 url
      [url, { url with path := ["moved"], query := none }]
      { status := 206, body := Utf8.encode "[\"ü\"]" } :=
    .onward rfl rfl (.final rfl rfl)
  refine ⟨hlisting, url, hurl, hhost, hlossless.told _ _ _ hlisting hurl, ?_⟩
  exact hlossless.success _ _ _ _ _ _ _ _ hurl hanswers (by simp [Network.redirectLimit])
    (by decide) rfl rfl

end Client

end ServiceDirectory
