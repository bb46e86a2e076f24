import HomeEnergyManager.Lib.Json

/-! # The MCP server

One request, one response: `mcp_post_handler` looks at the origin, receives the body piece by piece,
parses it and answers a JSON-RPC request, accepts a notification, or says what is wrong. What the
tools do, their descriptions, the parser and the library's reading of a header are parameters here.
A header that does not fit its buffer is an error of the library like one that is not there, which
`origin_allowed` takes for a client without an origin.

Reference: `firmware/main/mcp_server.c`.
-/

namespace HomeEnergyManager.Mcp

open Json

def MCP_MAX_BODY : ℕ := 8192

/-- Protocol revisions this server can speak, newest first. -/
def PROTOCOL_VERSIONS : List String := ["2025-06-18", "2025-03-26", "2024-11-05"]

inductive RpcError where
  | parseError
  | invalidRequest
  | methodNotFound
  | invalidParams
deriving DecidableEq, Repr

def RpcError.code : RpcError → ℤ
  | .parseError => -32700
  | .invalidRequest => -32600
  | .methodNotFound => -32601
  | .invalidParams => -32602

/-! ## The tools -/

inductive Tool where
  | getTopology
  | getPowerSeries
  | getDailyEnergy
  | getBatterySource
  | getForecast
  | getSchedule
  | getApplianceProfiles
  | getTariff
  | explainBatteryMix
  | getStreamHealth
  | listDataFiles
  | recomputeDays
  | refreshForecast
deriving DecidableEq, Repr

def Tool.name : Tool → String
  | .getTopology => "get_topology"
  | .getPowerSeries => "get_power_series"
  | .getDailyEnergy => "get_daily_energy"
  | .getBatterySource => "get_battery_source"
  | .getForecast => "get_forecast"
  | .getSchedule => "get_schedule"
  | .getApplianceProfiles => "get_appliance_profiles"
  | .getTariff => "get_tariff"
  | .explainBatteryMix => "explain_battery_mix"
  | .getStreamHealth => "get_stream_health"
  | .listDataFiles => "list_data_files"
  | .recomputeDays => "recompute_days"
  | .refreshForecast => "refresh_forecast"

/-- `read_only`. -/
def Tool.readOnly : Tool → Bool
  | .recomputeDays => false
  | .refreshForecast => false
  | _ => true

/-- `TOOLS`. -/
def TOOLS : List Tool :=
  [.getTopology, .getPowerSeries, .getDailyEnergy, .getBatterySource, .getForecast, .getSchedule,
    .getApplianceProfiles, .getTariff, .explainBatteryMix, .getStreamHealth, .listDataFiles,
    .recomputeDays, .refreshForecast]

/-- `tool_result_t`; `text` is `none` when memory ran out. -/
structure ToolResult where
  text : Option String
  isError : Bool

/-! ## The answers -/

/-- What is sent for a request. -/
inductive Response where
  /-- A status of the library and its text. -/
  | httpError (status : ℕ) (text : String)
  /-- 202, without a body. -/
  | accepted
  | json (root : Value)

/-- `arg_str`: a text that is not empty. -/
def argStr (args : Option Value) (key : String) : Option String :=
  ((args.bind (·.member key)).bind Value.asStr).filter (· ≠ "")

/-- `envelope`, with the member that comes after it. -/
def envelope (id : Option Value) (name : String) (v : Value) : Value :=
  .obj [("jsonrpc", .str "2.0"), ("id", id.getD .null), (name, v)]

/-- `send_text`; `memory` is whether there is room for the text. -/
def sendText (memory : Bool) (root : Value) : Response :=
  if memory then .json root else .httpError 500 "Out of memory building the response"

/-- `send_rpc_error`. -/
def sendRpcError (memory : Bool) (id : Option Value) (err : RpcError) (message : String) :
    Response :=
  sendText memory
    (envelope id "error" (.obj [("code", .num err.code), ("message", .str message)]))

/-- The loop of `initialize_result`. -/
def negotiate (wanted : Option String) : String :=
  PROTOCOL_VERSIONS.foldl (fun version v => if wanted = some v then v else version) "2025-06-18"

/-- `initialize_result`. -/
def initializeResult (params : Option Value) : Value :=
  .obj [("protocolVersion", .str (negotiate (argStr params "protocolVersion"))),
    ("capabilities", .obj [("tools", .obj [])]),
    ("serverInfo", .obj [("name", .str "home-energy-manager"), ("version", .str "1.0.0")]),
    ("instructions", .str ("Home Energy Manager for one house. Start with get_topology to " ++
      "learn the node ids. Dates are local to the house. Logged power keeps the meter's raw " ++
      "sign: + is power into a node, - is power out of it."))]

section Handlers

variable {σ : Type} (run : Tool → Option Value → σ → σ × ToolResult)
  (describe : Tool → String × Value) (parse : List UInt8 → Option Value)
  (hdrValue : ℕ → Option (List Char) → Option (List Char)) (memory : Bool)

/-- `tools_list_result`. -/
def toolsListResult : Value :=
  .obj [("tools", .arr (TOOLS.map fun t =>
    .obj [("name", .str t.name), ("description", .str (describe t).1),
      ("inputSchema", (describe t).2),
      ("annotations",
        .obj [("readOnlyHint", .bool t.readOnly), ("destructiveHint", .bool false)])]))]

/-- The loop over the table: the last tool of the name. -/
def findTool (name : Option String) : Option Tool :=
  TOOLS.foldl (fun tool t => if name = some t.name then some t else tool) none

/-- An object, and nothing else, is handed on. -/
def objectOnly : Option Value → Option Value
  | some (.obj members) => some (.obj members)
  | _ => none

/-- `handle_tools_call`. -/
def handleToolsCall (id : Option Value) (params : Option Value) (s : σ) : σ × Response :=
  match findTool (argStr params "name") with
  | none => (s, sendRpcError memory id .invalidParams "Unknown tool")
  | some tool =>
    let (s, r) := run tool (objectOnly (params.bind (·.member "arguments"))) s
    let (text, isError) := match r.text with
      | some text => (text, r.isError)
      | none => ("The device ran out of memory building the result", true)
    (s, sendText memory (envelope id "result" (.obj
      [("content", .arr [.obj [("type", .str "text"), ("text", .str text)]]),
        ("isError", .bool isError)])))

/-! ## The origin -/

/-- The documented behaviour of `httpd_req_get_hdr_value_str`, which is given the size of a buffer
and the header of a request: `none` is every result but `ESP_OK`. -/
structure HdrDocumented (hdrValue : ℕ → Option (List Char) → Option (List Char)) : Prop where
  missing : ∀ size, hdrValue size none = none
  /-- The value and its NUL fit into the buffer. -/
  fits : ∀ size value, value.length < size → hdrValue size (some value) = some value
  /-- What does not fit is cut off, which is an error. -/
  truncated : ∀ size value, size ≤ value.length → hdrValue size (some value) = none

/-- `strstr`. -/
def strstr (needle : List Char) : List Char → Option (List Char)
  | [] => if needle = [] then some [] else none
  | c :: text => if needle.isPrefixOf (c :: text) then some (c :: text) else strstr needle text

/-- `strcasecmp`, for equality. -/
def sameIgnoringCase (a b : List Char) : Bool := a.map Char.toLower = b.map Char.toLower

/-- `"://"`. -/
def schemeEnd : List Char := [':', '/', '/']

/-- `origin_allowed`. -/
def originAllowed (origin host : Option (List Char)) : Bool :=
  match hdrValue 128 origin with
  | none => true
  | some origin =>
    match hdrValue 96 host with
    | none => false
    | some host =>
      match strstr schemeEnd origin with
      | none => false
      | some rest => sameIgnoringCase (rest.drop 3) host

/-! ## `mcp_post_handler` -/

/-- What the library has of a request; `pieces` is what each receive brings. -/
structure Request where
  origin : Option (List Char) := none
  host : Option (List Char) := none
  contentLen : ℕ
  pieces : List (List UInt8)
  /-- There is room for the body. -/
  bodyMemory : Bool := true
  /-- There is room for the text of the answer. -/
  textMemory : Bool := true

/-- The receive loop: so many bytes are missing, and the connection ends after the pieces. -/
def receive : ℕ → List (List UInt8) → Option (List UInt8)
  | 0, _ => some []
  | _ + 1, [] => none
  | missing + 1, piece :: pieces =>
    -- the library hands out no more than it is asked for
    let got := piece.take (missing + 1)
    if got = [] then none else (receive (missing + 1 - got.length) pieces).map (got ++ ·)

/-- A request that has been parsed. -/
def answer (msg : Value) (s : σ) : σ × Response :=
  let id := msg.member "id"
  let params := msg.member "params"
  match objectOnly (some msg), argStr (some msg) "method" with
  | some _, some method =>
    if id.isNone then (s, .accepted)
    else if method = "tools/call" then handleToolsCall run memory id params s
    else
      let result :=
        if method = "initialize" then some (initializeResult params)
        else if method = "tools/list" then some (toolsListResult describe)
        else if method = "ping" then some (.obj [])
        else none
      match result with
      | some result => (s, sendText memory (envelope id "result" result))
      | none => (s, sendRpcError memory id .methodNotFound "Method not found")
  | _, _ => (s, sendRpcError memory id .invalidRequest "Expected a single JSON-RPC request")

/-- `mcp_post_handler`. -/
def mcpPostHandler (req : Request) (s : σ) : σ × Response :=
  if !originAllowed hdrValue req.origin req.host then (s, .httpError 403 "Origin not allowed")
  else if req.contentLen = 0 ∨ MCP_MAX_BODY < req.contentLen then
    (s, .httpError 400 "The request body is missing or too large")
  else if !req.bodyMemory then (s, .httpError 500 "Out of memory")
  else
    match receive req.contentLen req.pieces with
    | none => (s, .httpError 400 "The request body could not be read")
    | some body =>
      match parse body with
      | none => (s, sendRpcError req.textMemory none .parseError "Parse error")
      | some msg => answer run describe req.textMemory msg s

end Handlers

/-! ## The body -/

section Body

variable {pieces : List (List UInt8)}

/-- However the body is cut into pieces, it is received as it was sent. -/
theorem receive_flatten (missing : ℕ) (h : ∀ piece ∈ pieces, piece ≠ []) :
    receive missing pieces =
      if missing ≤ pieces.flatten.length then some (pieces.flatten.take missing) else none := by
  induction pieces generalizing missing with
  | nil => cases missing <;> rfl
  | cons piece pieces ih =>
    obtain ⟨hpiece, hpieces⟩ := List.forall_mem_cons.mp h
    cases missing with
    | zero => rfl
    | succ missing =>
      have hgot : piece.take (missing + 1) ≠ [] := by
        simpa [List.take_eq_nil_iff] using hpiece
      rw [receive, if_neg hgot, ih _ hpieces, List.length_take, List.flatten_cons,
        List.length_append, List.take_append]
      by_cases hshort : piece.length < missing + 1
      · have htake : piece.take (missing + 1) = piece := List.take_of_length_le hshort.le
        have hmin : min (missing + 1) piece.length = piece.length := by omega
        rw [htake, hmin]
        by_cases hrest : missing + 1 - piece.length ≤ pieces.flatten.length
        · have hall : missing + 1 ≤ piece.length + pieces.flatten.length := by omega
          rw [if_pos hrest, if_pos hall, Option.map_some]
        · have hall : ¬ missing + 1 ≤ piece.length + pieces.flatten.length := by omega
          rw [if_neg hrest, if_neg hall, Option.map_none]
      · have hmin : missing + 1 - min (missing + 1) piece.length = 0 := by omega
        have hnone : missing + 1 - piece.length = 0 := by omega
        have hall : missing + 1 ≤ piece.length + pieces.flatten.length := by omega
        rw [hmin, hnone, if_pos (Nat.zero_le _), if_pos hall, Option.map_some]

end Body

/-! ## The origin of a page -/

section Origin

variable {scheme page : List Char}

theorem strstr_scheme (h : ':' ∉ scheme) :
    strstr schemeEnd (scheme ++ (schemeEnd ++ page)) = some (schemeEnd ++ page) := by
  induction scheme with
  | nil => rfl
  | cons c scheme ih =>
    obtain ⟨hc, hscheme⟩ := List.ne_and_not_mem_of_not_mem_cons h
    have hprefix : (schemeEnd.isPrefixOf (c :: (scheme ++ (schemeEnd ++ page)))) = false := by
      simp [schemeEnd, List.isPrefixOf, hc]
    rw [List.cons_append, strstr, hprefix]
    exact ih hscheme

/-- A page may drive the tools if it is served under the name in `Host`, which has to be short
enough. But so may a page of any other name whose origin has 128 characters or more. -/
theorem originAllowed_page {hdrValue : ℕ → Option (List Char) → Option (List Char)}
    (hhdr : HdrDocumented hdrValue) (h : ':' ∉ scheme) (host : Option (List Char)) :
    originAllowed hdrValue (some (scheme ++ (schemeEnd ++ page))) host = true ↔
      128 ≤ (scheme ++ (schemeEnd ++ page)).length ∨
        ∃ name, host = some name ∧ name.length < 96 ∧ sameIgnoringCase page name = true := by
  by_cases hlong : 128 ≤ (scheme ++ (schemeEnd ++ page)).length
  · rw [originAllowed, hhdr.truncated 128 _ hlong]
    exact iff_of_true rfl (.inl hlong)
  · rw [originAllowed, hhdr.fits 128 _ (not_le.mp hlong), or_iff_right hlong]
    dsimp only
    cases host with
    | none => simp [hhdr.missing]
    | some name =>
      by_cases hname : name.length < 96
      · rw [hhdr.fits 96 name hname]
        dsimp only
        have hrest : (schemeEnd ++ page).drop 3 = page := rfl
        rw [strstr_scheme h]
        simp [hrest, hname]
      · rw [hhdr.truncated 96 name (not_lt.mp hname)]
        simp [hname]

/-- A header in a buffer. -/
def bufferedHdr (size : ℕ) (value : Option (List Char)) : Option (List Char) :=
  value.filter (·.length < size)

theorem bufferedHdr_documented : HdrDocumented bufferedHdr where
  missing _ := rfl
  fits _ _ h := Option.filter_some_pos (decide_eq_true h)
  truncated _ _ h := Option.filter_some_neg (by simpa using h)

/-- A page of another name, long enough. -/
theorem originAllowed_page_long :
    originAllowed bufferedHdr (some ("https".toList ++ (schemeEnd ++ List.replicate 120 'a')))
        (some "hub.local".toList) = true :=
  (originAllowed_page bufferedHdr_documented (by decide) _).mpr (.inl (by decide +kernel))

end Origin

/-! ## What a request is answered with -/

section Post

variable {σ : Type} (run : Tool → Option Value → σ → σ × ToolResult)
  (describe : Tool → String × Value) (parse : List UInt8 → Option Value)
  (hdrValue : ℕ → Option (List Char) → Option (List Char))

/-- What has been received of a request. -/
def Request.body (req : Request) : Option (List UInt8) := receive req.contentLen req.pieces

/-- What has been received and parsed. -/
def Request.message (req : Request) : Option Value := req.body.bind parse

/-- The request is received and parsed at all. -/
def Request.Admitted (req : Request) : Prop :=
  originAllowed hdrValue req.origin req.host = true ∧ 0 < req.contentLen ∧
    req.contentLen ≤ MCP_MAX_BODY ∧ req.bodyMemory = true

/-- A JSON-RPC reply to an id: a result or an error, and not both. -/
structure IsReply (id : Option Value) (root : Value) : Prop where
  jsonrpc : root.member "jsonrpc" = some (.str "2.0")
  id : root.member "id" = some (id.getD .null)
  one : (root.member "result").isSome = !(root.member "error").isSome

/-- A notification: a method and no id. -/
def IsNotification (msg : Value) : Prop :=
  (∃ members, msg = .obj members) ∧ (argStr (some msg) "method").isSome ∧ msg.member "id" = none

theorem isReply_result (id : Option Value) (v : Value) : IsReply id (envelope id "result" v) where
  jsonrpc := by simp [envelope]
  id := by simp [envelope]
  one := by simp [envelope]

theorem isReply_error (id : Option Value) (v : Value) : IsReply id (envelope id "error" v) where
  jsonrpc := by simp [envelope]
  id := by simp [envelope]
  one := by simp [envelope]

theorem objectOnly_eq_some {v w : Value} (h : objectOnly (some v) = some w) :
    ∃ members, v = .obj members := by
  cases v with
  | obj members => exact ⟨members, rfl⟩
  | _ => cases h

/-- A call of a tool is answered with a reply to its id. -/
theorem exists_reply_handleToolsCall (memory : Bool) (id params : Option Value) (s : σ) :
    ∃ root, IsReply id root ∧
      (handleToolsCall run memory id params s).2 = sendText memory root := by
  unfold handleToolsCall
  cases findTool (argStr params "name") with
  | none => exact ⟨_, isReply_error _ _, rfl⟩
  | some tool => exact ⟨_, isReply_result _ _, rfl⟩

/-- A message is a notification, which is accepted, or is answered with a reply to its id. -/
theorem answer_cases (memory : Bool) (msg : Value) (s : σ) :
    (IsNotification msg ∧ (answer run describe memory msg s).2 = .accepted) ∨
    (¬ IsNotification msg ∧ ∃ root, IsReply (msg.member "id") root ∧
      (answer run describe memory msg s).2 = sendText memory root) := by
  unfold answer
  cases hobject : objectOnly (some msg) with
  | none =>
    refine .inr ⟨fun hnote => ?_, _, isReply_error _ _, rfl⟩
    obtain ⟨members, rfl⟩ := hnote.1
    cases hobject
  | some object =>
    cases hmethod : argStr (some msg) "method" with
    | none =>
      refine .inr ⟨fun hnote => ?_, _, isReply_error _ _, rfl⟩
      have hsome := hnote.2.1
      rw [hmethod] at hsome
      cases hsome
    | some method =>
      dsimp only
      by_cases hid : (msg.member "id").isNone = true
      · rw [if_pos hid]
        exact .inl ⟨⟨objectOnly_eq_some hobject, by rw [hmethod]; rfl,
          Option.isNone_iff_eq_none.mp hid⟩, rfl⟩
      · have hnot : ¬ IsNotification msg := fun hnote => hid (by rw [hnote.2.2]; rfl)
        rw [if_neg hid]
        by_cases hcall : method = "tools/call"
        · rw [if_pos hcall]
          exact .inr ⟨hnot, exists_reply_handleToolsCall run memory _ _ s⟩
        · rw [if_neg hcall]
          split
          · exact .inr ⟨hnot, _, isReply_result _ _, rfl⟩
          · exact .inr ⟨hnot, _, isReply_error _ _, rfl⟩

/-- A request that is not admitted or not received is refused, and one that is neither parsed nor
refused is answered with a reply to no id. -/
theorem mcpPostHandler_cases (req : Request) (s : σ) :
    ((∃ status text, (mcpPostHandler run describe parse hdrValue req s).2 =
        .httpError status text) ∧ ¬ (req.Admitted hdrValue ∧ req.body.isSome)) ∨
    req.Admitted hdrValue ∧ req.body.isSome ∧
      ((req.message parse = none ∧ ∃ root, IsReply none root ∧
        (mcpPostHandler run describe parse hdrValue req s).2 = sendText req.textMemory root) ∨
      ∃ msg, req.message parse = some msg ∧ (mcpPostHandler run describe parse hdrValue req s).2 =
        (answer run describe req.textMemory msg s).2) := by
  unfold mcpPostHandler Request.message Request.Admitted Request.body
  cases horigin : originAllowed hdrValue req.origin req.host with
  | false => exact .inl ⟨⟨_, _, rfl⟩, by simp⟩
  | true =>
    rw [if_neg (by simp)]
    by_cases hlen : req.contentLen = 0 ∨ MCP_MAX_BODY < req.contentLen
    · rw [if_pos hlen]
      exact .inl ⟨⟨_, _, rfl⟩, by omega⟩
    rw [if_neg hlen]
    cases hmemory : req.bodyMemory with
    | false => exact .inl ⟨⟨_, _, rfl⟩, by simp⟩
    | true =>
      rw [if_neg (by simp)]
      cases receive req.contentLen req.pieces with
      | none => exact .inl ⟨⟨_, _, rfl⟩, by simp⟩
      | some body =>
        refine .inr ⟨⟨rfl, by omega, by omega, rfl⟩, rfl, ?_⟩
        dsimp only
        cases hparse : parse body with
        | none => exact .inl ⟨hparse, _, isReply_error _ _, rfl⟩
        | some msg => exact .inr ⟨msg, hparse, rfl⟩

theorem sendText_eq_json {memory : Bool} {root root' : Value}
    (h : sendText memory root = .json root') : memory = true ∧ root = root' := by
  cases memory with
  | false => cases h
  | true => exact ⟨rfl, Response.json.inj h⟩

theorem sendText_ne_accepted (memory : Bool) (root : Value) : sendText memory root ≠ .accepted := by
  cases memory <;> nofun

/-- Whatever a client sends: a JSON answer is a reply to the id of its message, with a result or an
error and not both; 202 is the answer to a notification that was admitted, and to nothing else;
everything else that was admitted and received gets a JSON answer if there is memory for it; and it
does not matter how the body was cut into pieces. -/
theorem mcpPostHandler_answers (req : Request) (s : σ) :
    (∀ root, (mcpPostHandler run describe parse hdrValue req s).2 = .json root →
      IsReply ((req.message parse).bind (·.member "id")) root) ∧
    ((mcpPostHandler run describe parse hdrValue req s).2 = .accepted ↔
      req.Admitted hdrValue ∧ ∃ msg, req.message parse = some msg ∧ IsNotification msg) ∧
    ((∃ root, (mcpPostHandler run describe parse hdrValue req s).2 = .json root) ↔
      req.Admitted hdrValue ∧ req.body.isSome ∧ req.textMemory = true ∧
        ∀ msg, req.message parse = some msg → ¬ IsNotification msg) ∧
    ((∀ piece ∈ req.pieces, piece ≠ []) →
      req.body = if req.contentLen ≤ req.pieces.flatten.length then
        some (req.pieces.flatten.take req.contentLen) else none) := by
  rw [← and_assoc, ← and_assoc]
  refine ⟨?_, fun hpieces => receive_flatten req.contentLen hpieces⟩
  rw [and_assoc]
  obtain ⟨⟨status, text, h⟩, hnot⟩ | ⟨hadmitted, hbody, hrest⟩ :=
    mcpPostHandler_cases run describe parse hdrValue req s
  · rw [h]
    refine ⟨nofun, iff_of_false nofun ?_, iff_of_false nofun fun hall => hnot ⟨hall.1, hall.2.1⟩⟩
    rintro ⟨hadmitted, msg, hmsg, -⟩
    obtain ⟨body, hbody, -⟩ := Option.bind_eq_some_iff.mp hmsg
    exact hnot ⟨hadmitted, by rw [hbody]; rfl⟩
  obtain ⟨hnone, root, hreply, h⟩ | ⟨msg, hmsg, h⟩ := hrest
  · rw [h, hnone]
    refine ⟨fun root' hroot => (sendText_eq_json hroot).2 ▸ hreply,
      iff_of_false (sendText_ne_accepted _ _) (by simp), ?_⟩
    refine ⟨fun ⟨root', hroot⟩ => ⟨hadmitted, hbody, (sendText_eq_json hroot).1, nofun⟩, ?_⟩
    rintro ⟨-, -, hmemory, -⟩
    rw [hmemory]
    exact ⟨root, rfl⟩
  · rw [h, hmsg, Option.bind_some]
    obtain ⟨hnote, haccepted⟩ | ⟨hnot, root, hreply, hroot⟩ :=
      answer_cases run describe req.textMemory msg s
    · rw [haccepted]
      exact ⟨nofun, iff_of_true rfl ⟨hadmitted, msg, rfl, hnote⟩,
        iff_of_false nofun fun hall => hall.2.2.2 msg rfl hnote⟩
    · rw [hroot]
      refine ⟨fun root' hroot' => (sendText_eq_json hroot').2 ▸ hreply,
        iff_of_false (sendText_ne_accepted _ _) ?_, ?_⟩
      · rintro ⟨-, msg', hmsg', hnote⟩
        exact hnot (Option.some.inj hmsg' ▸ hnote)
      · refine ⟨fun ⟨root', hroot'⟩ => ⟨hadmitted, hbody, (sendText_eq_json hroot').1,
          fun msg' hmsg' => Option.some.inj hmsg' ▸ hnot⟩, ?_⟩
        rintro ⟨-, -, hmemory, -⟩
        rw [hmemory]
        exact ⟨root, rfl⟩

end Post

end HomeEnergyManager.Mcp
