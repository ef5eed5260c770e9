import ExprCompiler.Log.Record
import ExprCompiler.Service.Cors
import ExprCompiler.Service.Endpoints
import ExprCompiler.Service.Metrics
import ExprCompiler.Service.RateLimit

/-!
The service. Every request is logged and counted; in between it passes the rate limit, the rules for
other origins and the routes, in this order, and each of them may answer it.
-/

namespace ExprCompiler

structure Service where
  config : Config
  charsets : CharsetRegistry := .common
  metrics : Metrics := {}
  limiter : RateLimit := {}

inductive Route where
  | health | metrics | compile | run
  deriving DecidableEq, Repr

namespace Route

def path : Route → Bytes
  | health => utf8 "/healthz"
  | metrics => utf8 "/metrics"
  | compile => utf8 "/compile"
  | run => utf8 "/run"

def method : Route → Bytes
  | health | metrics => utf8 "GET"
  | compile | run => utf8 "POST"

def all : List Route := [health, metrics, compile, run]

end Route

def knownMethods : List String :=
  ["CONNECT", "DELETE", "GET", "HEAD", "OPTIONS", "PATCH", "POST", "PUT", "TRACE"]

namespace Service

structure Handled extends EndpointResult where
  route : Option Route := none
  deriving DecidableEq, Repr

def answerRoute (service : Service) (request : HttpRequest) : Route → EndpointResult
  | .health => { response := Endpoint.health }
  | .metrics => { response := { status := 200, body := service.metrics.text } }
  | .compile => Endpoint.compile service.charsets service.config request.body
  | .run => Endpoint.compileAndRun service.charsets service.config request.body

def dispatch (service : Service) (request : HttpRequest) : Handled :=
  if !knownMethods.any (utf8 · == request.method) then { response := { status := 405 } }
  else
    match Route.all.find? (·.path == request.route) with
    | none => { response := .plainText 404 "404 page not found" }
    | some route =>
        if route.method = request.method then
          { toEndpointResult := service.answerRoute request route, route := some route }
        else { response := { status := 405 } }

def dispatchShared (service : Service) (request : HttpRequest) : Handled :=
  let origins := service.config.corsOrigins
  if origins = [] then service.dispatch request
  else if Cors.isPreflight request then { response := Cors.preflight origins request }
  else
    let handled := service.dispatch request
    { handled with response := Cors.annotate origins request handled.response }

def answer (service : Service) (request : HttpRequest) : Handled × RateLimit :=
  let limit := service.config.rateLimit
  if limit ≤ 0 then (service.dispatchShared request, service.limiter)
  else
    match service.limiter.judge limit request.arrival (Address.clientKey request.client) with
    | (.refuse remaining, limiter) => ({ response := RateLimit.refusal limit remaining }, limiter)
    | (.pass remaining, limiter) =>
        let handled := service.dispatchShared request
        ({ handled with response := RateLimit.label limit remaining handled.response }, limiter)

def requestLevel (status : Nat) : LogLevel :=
  if 500 ≤ status then .error else if 400 ≤ status then .warn else .info

def requestRecord (request : HttpRequest) (response : HttpResponse) : LogRecord where
  level := requestLevel response.status
  message := utf8 "http request"
  attributes :=
    [(utf8 "method", .text request.method), (utf8 "path", .text request.path),
      (utf8 "status", .int response.status), (utf8 "bytes", .int response.body.length),
      (utf8 "latency", .elapsed), (utf8 "ip", .text request.client)]

def countOutcome (metrics : Metrics) : Option CompileOutcome → Metrics
  | some outcome => metrics.countCompilation outcome.stage outcome.result
  | none => metrics

def countedPath : Option Route → Bytes
  | some route => route.path
  | none => utf8 "unmatched"

def handle (service : Service) (request : HttpRequest) :
    HttpResponse × List LogRecord × Service :=
  let (handled, limiter) := service.answer request
  let response := handled.response
  let metrics := (countOutcome service.metrics handled.outcome).countRequest request.method
    (countedPath handled.route) response.status
  (response, handled.log ++ [requestRecord request response],
    { service with metrics := metrics, limiter := limiter })

end Service
end ExprCompiler
