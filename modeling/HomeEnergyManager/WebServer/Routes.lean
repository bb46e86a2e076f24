import HomeEnergyManager.WebServer.UriMatch

/-! # The routes of the server

The server tries its routes in the order in which they were registered, with the matcher of
`UriMatch`, and the same matcher refuses a route whose template an earlier one of its method already
accepts. Many templates overlap: a trailing `*` takes the rest of the path, and the last route of
all takes every path. The order of registration is therefore part of the program.

The HTTP library is a parameter; `Httpd.Documented` is what the program relies on.

Reference: `firmware/main/web_server.c`, `firmware/main/companion_api.c`,
`firmware/main/mcp_server.c`, `firmware/main/ws_server.c`.
-/

namespace HomeEnergyManager.WebServer

/-- `httpd_method_t`; the program has routes for four of them. -/
inductive Method where
  | get
  | post
  | put
  | delete
  | other (code : ℕ)
deriving DecidableEq, Repr

/-- The functions that answer requests. -/
inductive Handler where
  | devicesGet | devicesSimpleGet | devicesEndpointsGet | deviceDelete | deviceNamePut
  | deviceEndpointPut | controllerCommissionPost | controllerUnpairPost | debugMdnsGet
  | deviceInterrogatePost | deviceCommissioningWindowPost | factoryResetPost | nodesGet
  | nodeSettingsPut | nodePut | nodeDelete | dataGridGet | dataNodeGet | dataDailyEnergyGet
  | batterySourceGet | topologyGridPut | topologySolarPut | topologyTariffPut | tariffGet
  | edgePost | edgeDelete | forecastSolarGet | forecastSolarFetch | forecastConsumptionGet
  | forecastSurplusGet | forecastSurplusModelGet | testSurplusModelTrain | applianceProfileGet
  | applianceProfilesGet | scheduleGet | testApplianceProfilesTrain | testGenerateSampleData
  | testRollupHourly | testConsumptionForecastCompute | testRunDailyJob | debugFilesList
  | debugFilesGet | debugPing6Get | debugRoutes6Get | debugRoutes6CacheDelete | staticGet
  | companionInfoGet | companionNodesGet | companionNodesPost | companionNodeUpdatePut
  | companionNodeDelete | mcpPost | mcpGet | ws
deriving DecidableEq, Repr

/-- `httpd_uri_t`. -/
structure Route where
  uri : String
  method : Method
  handler : Handler
deriving DecidableEq, Repr

/-- The template of a route. -/
def Route.templ (r : Route) : List UInt8 := chars r.uri

/-- The routes of `web_server_start` but for the last. -/
def webRoutes : List Route :=
  [⟨"/api/devices", .get, .devicesGet⟩,
    ⟨"/api/devices/simple", .get, .devicesSimpleGet⟩,
    ⟨"/api/devices/endpoints", .get, .devicesEndpointsGet⟩,
    ⟨"/api/devices/*", .delete, .deviceDelete⟩,
    ⟨"/api/devices/*/name", .put, .deviceNamePut⟩,
    ⟨"/api/devices/*/endpoints/*", .put, .deviceEndpointPut⟩,
    ⟨"/controller/commission", .post, .controllerCommissionPost⟩,
    ⟨"/controller/unpair", .post, .controllerUnpairPost⟩,
    ⟨"/debug/mdns", .get, .debugMdnsGet⟩,
    ⟨"/api/devices/*/interrogate", .post, .deviceInterrogatePost⟩,
    ⟨"/api/devices/*/commissioning-window", .post, .deviceCommissioningWindowPost⟩,
    ⟨"/api/factory-reset", .post, .factoryResetPost⟩,
    ⟨"/api/nodes", .get, .nodesGet⟩,
    ⟨"/api/nodes/*/settings", .put, .nodeSettingsPut⟩,
    ⟨"/api/nodes/*", .put, .nodePut⟩,
    ⟨"/api/nodes/*", .delete, .nodeDelete⟩,
    ⟨"/api/data/grid", .get, .dataGridGet⟩,
    ⟨"/api/data/node", .get, .dataNodeGet⟩,
    ⟨"/api/data/daily-energy", .get, .dataDailyEnergyGet⟩,
    ⟨"/api/battery/source", .get, .batterySourceGet⟩,
    ⟨"/api/topology/grid", .put, .topologyGridPut⟩,
    ⟨"/api/topology/solar", .put, .topologySolarPut⟩,
    ⟨"/api/topology/tariff", .put, .topologyTariffPut⟩,
    ⟨"/api/tariff", .get, .tariffGet⟩,
    ⟨"/api/edges", .post, .edgePost⟩,
    ⟨"/api/edges/*", .delete, .edgeDelete⟩,
    ⟨"/api/forecast/solar", .get, .forecastSolarGet⟩,
    ⟨"/api/forecast/solar/fetch", .post, .forecastSolarFetch⟩,
    ⟨"/api/forecast/consumption", .get, .forecastConsumptionGet⟩,
    ⟨"/api/forecast/surplus", .get, .forecastSurplusGet⟩,
    ⟨"/api/forecast/surplus/model", .get, .forecastSurplusModelGet⟩,
    ⟨"/api/test/surplus-model/train", .post, .testSurplusModelTrain⟩,
    ⟨"/api/appliance/profile", .get, .applianceProfileGet⟩,
    ⟨"/api/appliance/profiles", .get, .applianceProfilesGet⟩,
    ⟨"/api/schedule", .get, .scheduleGet⟩,
    ⟨"/api/test/appliance-profiles/train", .post, .testApplianceProfilesTrain⟩,
    ⟨"/api/test/generate-sample-data", .post, .testGenerateSampleData⟩,
    ⟨"/api/test/rollup-hourly", .post, .testRollupHourly⟩,
    ⟨"/api/test/consumption-forecast/compute", .post, .testConsumptionForecastCompute⟩,
    ⟨"/api/test/run-daily-job", .post, .testRunDailyJob⟩,
    ⟨"/debug/files", .get, .debugFilesList⟩,
    ⟨"/debug/files/*", .get, .debugFilesGet⟩,
    ⟨"/debug/ping6", .get, .debugPing6Get⟩,
    ⟨"/debug/routes6", .get, .debugRoutes6Get⟩,
    ⟨"/debug/routes6/cache", .delete, .debugRoutes6CacheDelete⟩]

/-- The routes of `companion_api_register`. -/
def companionRoutes : List Route :=
  [⟨"/api/companion/info", .get, .companionInfoGet⟩,
    ⟨"/api/companion/nodes", .get, .companionNodesGet⟩,
    ⟨"/api/companion/nodes", .post, .companionNodesPost⟩,
    ⟨"/api/companion/nodes/*/update", .put, .companionNodeUpdatePut⟩,
    ⟨"/api/companion/nodes/*", .delete, .companionNodeDelete⟩]

/-- The routes of `mcp_server_register`. -/
def mcpRoutes : List Route := [⟨"/mcp", .post, .mcpPost⟩, ⟨"/mcp", .get, .mcpGet⟩]

/-- `ws_uri`. -/
def wsUri : Route := ⟨"/ws", .get, .ws⟩

/-- `static_files`. -/
def staticFiles : Route := ⟨"/*", .get, .staticGet⟩

/-! ## The HTTP library -/

/-- What a request is answered with that has no route. -/
inductive FindError where
  | notFound
  | methodNotAllowed
deriving DecidableEq, Repr

inductive RegisterError where
  | handlerExists
  | handlersFull
deriving DecidableEq, Repr

/-- `uri_match_fn`: a template, a text, and how much of it counts. -/
abbrev MatchFn := List UInt8 → List UInt8 → ℕ → Option Bool

/-- The functions of `esp_http_server` that serve routes, over the library's own server type. -/
structure Httpd (S : Type) where
  /-- `httpd_start`, with `uri_match_fn` and `max_uri_handlers`. -/
  start : MatchFn → ℕ → S
  /-- `httpd_register_uri_handler`. -/
  register : S → Route → Except RegisterError S
  /-- The search for the route of a request. -/
  find : S → Method → List UInt8 → ℕ → Except FindError Route

/-- What is known of a server: its configuration and its routes, in the order of registration. -/
structure View where
  matchFn : MatchFn
  maxUriHandlers : ℕ
  routes : List Route

/-- The template of the route matches the text. -/
def View.Matches (v : View) (r : Route) (text : List UInt8) (len : ℕ) : Prop :=
  v.matchFn r.templ text len = some true

/-- The documented behaviour of the library, in terms of what is known of its servers. -/
structure Httpd.Documented {S : Type} (lib : Httpd S) (view : S → View) : Prop where
  start : ∀ matchFn m, view (lib.start matchFn m) = ⟨matchFn, m, []⟩
  /-- A route that is registered comes after those that were. -/
  register_ok : ∀ s r s', lib.register s r = .ok s' →
    view s' = { view s with routes := (view s).routes ++ [r] }
  /-- While there is a slot, only a route is refused whose template one of its method matches. -/
  register_room : ∀ s r, (view s).routes.length < (view s).maxUriHandlers →
    (∀ r' ∈ (view s).routes, r'.method = r.method → ¬ (view s).Matches r' r.templ r.templ.length) →
    ∃ s', lib.register s r = .ok s'
  /-- Without a slot every route is refused. -/
  register_full : ∀ s r, (view s).maxUriHandlers ≤ (view s).routes.length →
    ∃ e, lib.register s r = .error e
  /-- The first route of the method that matches is the one. -/
  find_ok : ∀ s method uri uriLen r, lib.find s method uri uriLen = .ok r →
    r.method = method ∧ (view s).Matches r uri uriLen ∧
      ∃ before after, (view s).routes = before ++ r :: after ∧
        ∀ r' ∈ before, r'.method = method → ¬ (view s).Matches r' uri uriLen
  /-- An error means that there is none, and 405 that one of another method matches. -/
  find_error : ∀ s method uri uriLen e, lib.find s method uri uriLen = .error e →
    (∀ r ∈ (view s).routes, r.method = method → ¬ (view s).Matches r uri uriLen) ∧
      (e = .methodNotAllowed ↔ ∃ r ∈ (view s).routes, (view s).Matches r uri uriLen)

/-! ## `web_server_start` -/

section Start

variable {S : Type} (lib : Httpd S)

/-- Registrations whose errors are not looked at. -/
def registerEach (s : S) : List Route → S
  | [] => s
  | r :: routes =>
    match lib.register s r with
    | .ok s' => registerEach s' routes
    | .error _ => registerEach s routes

/-- Registrations that end at the first error. -/
def registerUntil (s : S) : List Route → S
  | [] => s
  | r :: routes =>
    match lib.register s r with
    | .ok s' => registerUntil s' routes
    | .error _ => s

/-- `web_server_start` from the start of the library's server on. -/
def webServerStart (maxUriHandlers : ℕ) : Except RegisterError S :=
  let server := registerEach lib (lib.start uriMatchSegments maxUriHandlers) webRoutes
  let server := registerUntil lib server companionRoutes
  let server := registerUntil lib server mcpRoutes
  let server := registerEach lib server [wsUri]
  lib.register server staticFiles

end Start

/-- The routes in the order in which they are registered. -/
def allRoutes : List Route := webRoutes ++ companionRoutes ++ mcpRoutes ++ [wsUri] ++ [staticFiles]

/-! ## Templates whose languages are apart or one within the other -/

/-- No text is accepted by both templates: they differ in a character before the last `*`. -/
def apart : List UInt8 → List UInt8 → Bool
  | [], [] => false
  | [], u :: _ => u ≠ star
  | t :: _, [] => t ≠ star
  | t :: ts, u :: us =>
    if t = star then u = star && !ts.isEmpty && !us.isEmpty && apart ts us
    else u ≠ star && (t ≠ u || apart ts us)

/-- Every text that the first template accepts is accepted by the second. -/
def within : List UInt8 → List UInt8 → Bool
  | [], us => us.isEmpty || us = [star]
  | _ :: _, [] => false
  | t :: ts, u :: us =>
    if u = star then us.isEmpty || (t = star && !ts.isEmpty && within ts us)
    else t = u && within ts us

section Templates

variable {templ templ' text : List UInt8}

theorem not_accepts_of_apart (h : apart templ templ' = true) (ht : accepts templ text = true) :
    accepts templ' text = false := by
  induction templ generalizing templ' text with
  | nil =>
    obtain rfl : text = [] := by simpa [accepts] using ht
    cases templ' with
    | nil => cases h
    | cons u us =>
      have hu : u ≠ star := by simpa [apart] using h
      rw [accepts, if_neg hu]
      rfl
  | cons t ts ih =>
    cases templ' with
    | nil =>
      have hstar : t ≠ star := by simpa [apart] using h
      rw [accepts, if_neg hstar] at ht
      cases text with
      | nil => cases ht
      | cons c text => rfl
    | cons u us =>
      rw [apart] at h
      rw [accepts] at ht ⊢
      by_cases hstar : t = star
      · simp only [if_pos hstar, Bool.and_eq_true, Bool.not_eq_true', decide_eq_true_eq] at h
        obtain ⟨⟨⟨hu, hts⟩, hus⟩, h⟩ := h
        -- both read the same block of the text
        rw [if_pos hstar, hts, Bool.false_or, Bool.and_eq_true] at ht
        rw [if_pos hu, hus, Bool.false_or, ih h ht.2, Bool.and_false]
      · simp only [if_neg hstar, Bool.and_eq_true, Bool.or_eq_true, decide_eq_true_eq] at h
        obtain ⟨hu, hne | h⟩ := h
        · rw [if_neg hstar, Bool.and_eq_true, decide_eq_true_eq] at ht
          rw [if_neg hu, ht.1, decide_eq_false fun heq => hne (Option.some.inj heq),
            Bool.false_and]
        · rw [if_neg hstar, Bool.and_eq_true] at ht
          rw [if_neg hu, ih h ht.2, Bool.and_false]

theorem accepts_of_within (h : within templ templ' = true) (ht : accepts templ text = true) :
    accepts templ' text = true := by
  induction templ generalizing templ' text with
  | nil =>
    have hcase : templ' = [] ∨ templ' = [star] := by simpa [within] using h
    rcases hcase with rfl | rfl
    · exact ht
    · rfl
  | cons t ts ih =>
    cases templ' with
    | nil => cases h
    | cons u us =>
      rw [within] at h
      rw [accepts] at ht ⊢
      by_cases hu : u = star
      · rw [if_pos hu]
        by_cases hus : us.isEmpty = true
        · rw [hus, Bool.true_or]
        · simp only [if_pos hu, Bool.eq_false_iff.mpr hus, Bool.false_or, Bool.and_eq_true,
            Bool.not_eq_true', decide_eq_true_eq] at h
          obtain ⟨⟨hstar, hts⟩, h⟩ := h
          rw [if_pos hstar, hts, Bool.false_or, Bool.and_eq_true] at ht
          rw [ht.1, ih h ht.2, Bool.true_and, Bool.or_true]
      · simp only [if_neg hu, Bool.and_eq_true, decide_eq_true_eq] at h
        obtain ⟨rfl, h⟩ := h
        rw [if_neg hu, Bool.and_eq_true] at ht
        rw [if_neg hu, ht.1, ih h ht.2, Bool.and_true]

end Templates

/-! ## Registration -/

/-- The later route can be registered after the earlier one. -/
def Route.Leaves (r r' : Route) : Prop := r.method = r'.method → accepts r.templ r'.templ = false

/-- A path that both routes accept is one that the earlier one is meant for. -/
def Route.Before (r r' : Route) : Prop :=
  r.method = r'.method → apart r.templ r'.templ = true ∨ within r.templ r'.templ = true

instance (r r' : Route) : Decidable (r.Leaves r') :=
  inferInstanceAs (Decidable (_ → _))

instance (r r' : Route) : Decidable (r.Before r') :=
  inferInstanceAs (Decidable (_ → _))

theorem allRoutes_leaves : allRoutes.Pairwise Route.Leaves := by decide +kernel

theorem allRoutes_before : allRoutes.Pairwise Route.Before := by decide +kernel

theorem allRoutes_wellFormed : ∀ r ∈ allRoutes, WellFormed r.templ := by decide +kernel

theorem allRoutes_slash : ∀ r ∈ allRoutes, ∃ templ, r.templ = slash :: templ := by
  have hhead : ∀ r ∈ allRoutes, r.templ.head? = some slash := by decide +kernel
  intro r hr
  obtain ⟨templ, htempl⟩ := List.head?_eq_some_iff.mp (hhead r hr)
  exact ⟨templ, htempl⟩

theorem uriMatchSegments_eq (templ : List UInt8) {uri : List UInt8} {uriLen : ℕ}
    (hlen : uriLen ≤ uri.length) :
    uriMatchSegments templ uri uriLen = some (accepts templ (uri.take uriLen)) :=
  matchLoop_eq hlen (Nat.zero_le _) (Nat.zero_le _)

section Register

variable {S : Type} {lib : Httpd S} {view : S → View} {m : ℕ} {registered routes : List Route}
  {s : S} {r : Route}

/-- The server has those of the routes for which there was a slot. -/
def Holds (view : S → View) (m : ℕ) (registered : List Route) (s : S) : Prop :=
  view s = ⟨uriMatchSegments, m, registered.take m⟩

/-- A route that the registered ones leave alone is registered if there is a slot. -/
theorem Holds.register_ok (hlib : lib.Documented view) (hs : Holds view m registered s)
    (hleaves : ∀ r' ∈ registered, r'.Leaves r) (hslot : registered.length < m) :
    ∃ s', lib.register s r = .ok s' ∧ Holds view m (registered ++ [r]) s' := by
  have hall : registered.take m = registered := List.take_of_length_le hslot.le
  rw [Holds, hall] at hs
  obtain ⟨s', hs'⟩ := hlib.register_room s r (by rwa [hs]) fun r' hr' hmethod hmatch => by
    rw [hs] at hr' hmatch
    unfold View.Matches at hmatch
    dsimp only at hmatch
    rw [uriMatchSegments_eq _ le_rfl, List.take_length, hleaves r' hr' hmethod] at hmatch
    cases hmatch
  refine ⟨s', hs', ?_⟩
  have hroom : (registered ++ [r]).take m = registered ++ [r] :=
    List.take_of_length_le (by
      rw [List.length_append]
      exact hslot)
  rw [Holds, hlib.register_ok s r s' hs', hs, hroom]

theorem Holds.register_error (hlib : lib.Documented view) (hs : Holds view m registered s)
    (hfull : ¬ registered.length < m) (r : Route) : ∃ e, lib.register s r = .error e := by
  refine hlib.register_full s r ?_
  rw [hs]
  dsimp only
  rw [List.length_take]
  omega

/-- Without a slot it makes no difference which routes are still to come. -/
theorem Holds.append_of_full (hs : Holds view m registered s) (hfull : ¬ registered.length < m)
    (routes : List Route) : Holds view m (registered ++ routes) s := by
  rw [Holds, hs, List.take_append_of_le_length (not_lt.mp hfull)]

theorem Holds.registerEach (hlib : lib.Documented view) (hs : Holds view m registered s)
    (h : (registered ++ routes).Pairwise Route.Leaves) :
    Holds view m (registered ++ routes) (registerEach lib s routes) := by
  induction routes generalizing registered s with
  | nil => rwa [WebServer.registerEach, List.append_nil]
  | cons r routes ih =>
    have hr : ∀ r' ∈ registered, r'.Leaves r := fun r' hr' =>
      (List.pairwise_append.mp h).2.2 r' hr' r List.mem_cons_self
    rw [WebServer.registerEach]
    by_cases hslot : registered.length < m
    · obtain ⟨s', hregister, hs'⟩ := hs.register_ok hlib hr hslot
      rw [hregister, List.append_cons]
      rw [List.append_cons] at h
      exact ih hs' h
    · obtain ⟨e, hregister⟩ := hs.register_error hlib hslot r
      have hskip := ih (hs.append_of_full hslot [r]) (by rwa [← List.append_cons])
      rw [hregister, List.append_cons]
      exact hskip

theorem Holds.registerUntil (hlib : lib.Documented view) (hs : Holds view m registered s)
    (h : (registered ++ routes).Pairwise Route.Leaves) :
    Holds view m (registered ++ routes) (registerUntil lib s routes) := by
  induction routes generalizing registered s with
  | nil => rwa [WebServer.registerUntil, List.append_nil]
  | cons r routes ih =>
    have hr : ∀ r' ∈ registered, r'.Leaves r := fun r' hr' =>
      (List.pairwise_append.mp h).2.2 r' hr' r List.mem_cons_self
    rw [WebServer.registerUntil]
    by_cases hslot : registered.length < m
    · obtain ⟨s', hregister, hs'⟩ := hs.register_ok hlib hr hslot
      rw [hregister, List.append_cons]
      rw [List.append_cons] at h
      exact ih hs' h
    · obtain ⟨e, hregister⟩ := hs.register_error hlib hslot r
      rw [hregister]
      exact hs.append_of_full hslot _

/-- The last route is registered only if there was a slot for all. -/
theorem webServerStart_eq (hlib : lib.Documented view) (m : ℕ) :
    (allRoutes.length ≤ m →
      ∃ s, webServerStart lib m = .ok s ∧ view s = ⟨uriMatchSegments, m, allRoutes⟩) ∧
    (¬ allRoutes.length ≤ m → ∃ e, webServerStart lib m = .error e) := by
  have hall := allRoutes_leaves
  unfold allRoutes at hall
  have hws := (List.pairwise_append.mp hall).1
  have hmcp := (List.pairwise_append.mp hws).1
  have hcompanion := (List.pairwise_append.mp hmcp).1
  have hstart : Holds view m [] (lib.start uriMatchSegments m) := by
    rw [Holds, hlib.start, List.take_nil]
  have hweb := hstart.registerEach hlib (List.pairwise_append.mp hcompanion).1
  have hholds := (((hweb.registerUntil hlib hcompanion).registerUntil hlib hmcp).registerEach hlib
    hws)
  rw [List.nil_append] at hholds
  refine ⟨fun hslot => ?_, fun hfull => hholds.register_error hlib hfull staticFiles⟩
  obtain ⟨s, hs, hview⟩ := hholds.register_ok hlib
    (fun r hr => (List.pairwise_append.mp hall).2.2 r hr staticFiles (by simp)) hslot
  refine ⟨s, hs, ?_⟩
  rw [hview]
  exact congrArg (View.mk uriMatchSegments m) (List.take_of_length_le hslot)

end Register

/-! ## The route of a request -/

/-- Whatever the method and the path, a request is served by the route whose template says most
about it: every other route of the method that takes the path takes all the paths that it takes.
Without one, no route of the method takes the path, and a path that begins with a `/` is answered
with 405. -/
theorem webServerStart_mostSpecific {S : Type} {lib : Httpd S} {view : S → View}
    (hlib : lib.Documented view) {m : ℕ} {s : S} (hstart : webServerStart lib m = .ok s)
    (method : Method) {uri : List UInt8} {uriLen : ℕ} (hlen : uriLen ≤ uri.length) :
    (∀ r, lib.find s method uri uriLen = .ok r →
      r ∈ allRoutes ∧ r.method = method ∧ uri.take uriLen ∈ language r.templ ∧
        ∀ r' ∈ allRoutes, r'.method = method → uri.take uriLen ∈ language r'.templ →
          ∀ text ∈ language r.templ, text ∈ language r'.templ) ∧
    (∀ e, lib.find s method uri uriLen = .error e →
      (∀ r ∈ allRoutes, r.method = method → uri.take uriLen ∉ language r.templ) ∧
        (e = .methodNotAllowed ↔ (uri.take uriLen).head? = some slash)) := by
  have hview : view s = ⟨uriMatchSegments, m, allRoutes⟩ := by
    obtain ⟨hok, herror⟩ := webServerStart_eq hlib m
    by_cases hslot : allRoutes.length ≤ m
    · obtain ⟨s', hs', hview⟩ := hok hslot
      rw [hstart] at hs'
      exact Except.ok.inj hs' ▸ hview
    · obtain ⟨e, he⟩ := herror hslot
      rw [hstart] at he
      cases he
  have hmatches (r : Route) :
      (view s).Matches r uri uriLen ↔ accepts r.templ (uri.take uriLen) = true := by
    rw [View.Matches, hview]
    dsimp only
    rw [uriMatchSegments_eq _ hlen, Option.some_inj]
  have hroutes : (view s).routes = allRoutes := by rw [hview]
  refine ⟨fun r hfind => ?_, fun e hfind => ?_⟩
  · obtain ⟨hmethod, hmatch, before, after, hsplit, hbefore⟩ := hlib.find_ok s _ _ _ r hfind
    rw [hroutes] at hsplit
    have haccepts := (hmatches r).mp hmatch
    have hr : r ∈ allRoutes := by simp [hsplit]
    refine ⟨hr, hmethod, (accepts_iff (allRoutes_wellFormed r hr)).mp haccepts, ?_⟩
    intro r' hr' hmethod' hmem text htext
    have hwf := allRoutes_wellFormed r' hr'
    have haccepts' := (accepts_iff hwf).mpr hmem
    rw [hsplit, List.mem_append, List.mem_cons] at hr'
    rcases hr' with hr' | rfl | hr'
    · -- an earlier one would have been found
      exact absurd ((hmatches r').mpr haccepts') (hbefore r' hr' hmethod')
    · exact htext
    · have hpair := allRoutes_before
      rw [hsplit] at hpair
      have hrr' := (List.pairwise_cons.mp (List.pairwise_append.mp hpair).2.1).1 r' hr'
      rcases hrr' (hmethod.trans hmethod'.symm) with hapart | hwithin
      · rw [not_accepts_of_apart hapart haccepts] at haccepts'
        cases haccepts'
      · exact (accepts_iff hwf).mp
          (accepts_of_within hwithin ((accepts_iff (allRoutes_wellFormed r hr)).mpr htext))
  · obtain ⟨hnone, he⟩ := hlib.find_error s _ _ _ e hfind
    rw [hroutes] at hnone he
    refine ⟨fun r hr hmethod hmem => ?_, ?_⟩
    · have haccepts := (accepts_iff (allRoutes_wellFormed r hr)).mpr hmem
      exact hnone r hr hmethod ((hmatches r).mpr haccepts)
    · rw [he]
      constructor
      · rintro ⟨r, hr, hmatch⟩
        have haccepts := (hmatches r).mp hmatch
        obtain ⟨templ, htempl⟩ := allRoutes_slash r hr
        rw [htempl, accepts, if_neg (by decide), Bool.and_eq_true, decide_eq_true_eq] at haccepts
        exact haccepts.1
      · intro hslash
        obtain ⟨rest, hrest⟩ := List.head?_eq_some_iff.mp hslash
        refine ⟨staticFiles, by simp [allRoutes], (hmatches _).mpr ?_⟩
        rw [hrest]
        rfl

/-! ## A library that does as documented -/

/-- A table of routes that is searched from its start; `found` if a route of another method has
matched. -/
def View.search (v : View) (method : Method) (uri : List UInt8) (uriLen : ℕ) (found : Bool) :
    List Route → Except FindError Route
  | [] => .error (if found then .methodNotAllowed else .notFound)
  | r :: routes =>
    if v.matchFn r.templ uri uriLen = some true then
      if r.method = method then .ok r else v.search method uri uriLen true routes
    else v.search method uri uriLen found routes

def tableHttpd : Httpd View where
  start matchFn m := ⟨matchFn, m, []⟩
  register v r :=
    match v.search r.method r.templ r.templ.length false v.routes with
    | .ok _ => .error .handlerExists
    | .error _ =>
      if v.routes.length < v.maxUriHandlers then .ok { v with routes := v.routes ++ [r] }
      else .error .handlersFull
  find v method uri uriLen := v.search method uri uriLen false v.routes

section Table

variable {v : View} {method : Method} {uri : List UInt8} {uriLen : ℕ} {found : Bool}
  {routes : List Route} {r : Route} {e : FindError}

theorem search_ok (h : v.search method uri uriLen found routes = .ok r) :
    r.method = method ∧ v.Matches r uri uriLen ∧
      ∃ before after, routes = before ++ r :: after ∧
        ∀ r' ∈ before, r'.method = method → ¬ v.Matches r' uri uriLen := by
  induction routes generalizing found with
  | nil => cases h
  | cons q routes ih =>
    rw [View.search] at h
    split_ifs at h with hmatch hmethod
    · obtain rfl := Except.ok.inj h
      exact ⟨hmethod, hmatch, [], routes, rfl, nofun⟩
    all_goals
      obtain ⟨hr, hacc, before, after, rfl, hbefore⟩ := ih h
      refine ⟨hr, hacc, q :: before, after, rfl, fun r' hr' hm => ?_⟩
      rcases List.mem_cons.mp hr' with rfl | hr'
    · exact absurd hm hmethod
    · exact hbefore r' hr' hm
    · exact hmatch
    · exact hbefore r' hr' hm

theorem search_error (h : v.search method uri uriLen found routes = .error e) :
    (∀ r ∈ routes, r.method = method → ¬ v.Matches r uri uriLen) ∧
      (e = .methodNotAllowed ↔ found = true ∨ ∃ r ∈ routes, v.Matches r uri uriLen) := by
  induction routes generalizing found with
  | nil =>
    obtain rfl := Except.error.inj h
    cases found <;> simp
  | cons q routes ih =>
    rw [View.search] at h
    split_ifs at h with hmatch hmethod
    all_goals obtain ⟨hnone, he⟩ := ih h
    · refine ⟨List.forall_mem_cons.mpr ⟨fun hm => absurd hm hmethod, hnone⟩, ?_⟩
      simp [he, View.Matches, hmatch]
    · refine ⟨List.forall_mem_cons.mpr ⟨fun _ => hmatch, hnone⟩, ?_⟩
      simp [he, View.Matches, hmatch]

theorem tableHttpd_documented : tableHttpd.Documented id where
  start _ _ := rfl
  register_ok v r v' h := by
    unfold tableHttpd at h
    dsimp only at h
    split at h
    · cases h
    · split_ifs at h
      exact (Except.ok.inj h).symm
  register_room v r hslot hleaves := by
    unfold tableHttpd
    dsimp only
    split
    · rename_i hfind
      obtain ⟨hmethod, hmatch, before, after, hsplit, -⟩ := search_ok hfind
      exact absurd hmatch (hleaves _ (by simp [hsplit]) hmethod)
    · exact ⟨_, if_pos hslot⟩
  register_full v r hfull := by
    unfold tableHttpd
    dsimp only
    split
    · exact ⟨_, rfl⟩
    · exact ⟨_, if_neg (not_lt.mpr hfull)⟩
  find_ok _ _ _ _ _ h := search_ok h
  find_error _ _ _ _ _ h := by
    obtain ⟨hnone, he⟩ := search_error h
    exact ⟨hnone, by simpa using he⟩

end Table

/-- The settings of a node, which the route of the node itself takes as well. -/
theorem webServerStart_mostSpecific_settings : ∃ s, webServerStart tableHttpd 64 = .ok s ∧
    tableHttpd.find s .put (chars "/api/nodes/n1/settings?") 22 =
      .ok ⟨"/api/nodes/*/settings", .put, .nodeSettingsPut⟩ ∧
    ∀ text ∈ language (chars "/api/nodes/*/settings"), text ∈ language (chars "/api/nodes/*") := by
  obtain ⟨s, hstart, hs⟩ := (webServerStart_eq tableHttpd_documented 64).1 (by decide)
  have hfind : tableHttpd.find s .put (chars "/api/nodes/n1/settings?") 22 =
      .ok ⟨"/api/nodes/*/settings", .put, .nodeSettingsPut⟩ := by
    rw [show s = ⟨uriMatchSegments, 64, allRoutes⟩ from hs]
    decide +kernel
  have hmem : (chars "/api/nodes/n1/settings?").take 22 ∈ language (chars "/api/nodes/*") :=
    (accepts_iff (by decide +kernel)).mp (by decide +kernel)
  exact ⟨s, hstart, hfind, ((webServerStart_mostSpecific tableHttpd_documented hstart .put
    (by decide +kernel)).1 _ hfind).2.2.2 ⟨"/api/nodes/*", .put, .nodePut⟩ (by decide +kernel) rfl
      hmem⟩

end HomeEnergyManager.WebServer
