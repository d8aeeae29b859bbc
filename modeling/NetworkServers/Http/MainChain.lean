import NetworkServers.Http.Connections
import NetworkServers.Http.ResponseDecoding

/-!
# The Server of Main

The server with the middlewares that `src/src/main.c` adds: the logger, the home page and the
404 page. Whatever request is parsed, exactly one text is written for it, and a client decodes it.
-/

namespace NetworkServers.Http

open NetworkServers.CString NetworkServers.HttpMessage NetworkServers.HttpServer
  NetworkServers.Machine NetworkServers.Runs

/-- The middlewares that `main` adds, in their order. -/
def mainMiddlewares : List Middleware := [.logger, .homepage, .notFound]

/-! ## The two pages -/

theorem decimal_clean (n : ℤ) : ∀ c ∈ decimal n, c ≠ 0 := by
  rintro c hc rfl
  rw [decimal_eq_integer] at hc
  exact not_mem_integer (by decide) (by decide) n hc

theorem padded_clean (fill : UInt8) (hfill : fill ≠ 0) (width n : ℕ) :
    ∀ c ∈ padded fill width n, c ≠ 0 := by
  intro c hc
  rcases List.mem_append.mp hc with hmem | hmem
  · rw [List.eq_of_mem_replicate hmem]
    exact hfill
  · exact decimal_clean n c hmem

theorem dayName_clean (wday : Fin 7) : ∀ c ∈ dayName wday, c ≠ 0 := by
  have hall : ∀ wday, (dayName wday).all (· ≠ 0) = true := by decide
  exact List.all_iff_forall_prop.mp (hall wday)

theorem monthName_clean (mon : Fin 12) : ∀ c ∈ monthName mon, c ≠ 0 := by
  have hall : ∀ mon, (monthName mon).all (· ≠ 0) = true := by decide
  exact List.all_iff_forall_prop.mp (hall mon)

/-- The time is a C string. -/
theorem asctime_clean (tm : Tm) : ∀ c ∈ asctime tm, c ≠ 0 := by
  have hblank : ∀ c ∈ bytes " ", c ≠ 0 := List.all_iff_forall_prop.mp (by decide)
  have hcolon : ∀ c ∈ bytes ":", c ≠ 0 := List.all_iff_forall_prop.mp (by decide)
  have hend : ∀ c ∈ bytes "\n", c ≠ 0 := List.all_iff_forall_prop.mp (by decide)
  have hmday := padded_clean 32 (by decide) 3 tm.mday
  have hhour := padded_clean 48 (by decide) 2 tm.hour
  have hmin := padded_clean 48 (by decide) 2 tm.min
  have hsec := padded_clean 48 (by decide) 2 tm.sec
  have hyear := decimal_clean (1900 + tm.year)
  unfold asctime
  simp only [List.forall_mem_append]
  exact ⟨⟨⟨⟨⟨⟨⟨⟨⟨⟨⟨⟨dayName_clean _, hblank⟩, monthName_clean _⟩, hmday⟩, hblank⟩, hhour⟩, hcolon⟩,
    hmin⟩, hcolon⟩, hsec⟩, hblank⟩, hyear⟩, hend⟩

theorem homepageBody_clean (now : Tm) : ∀ c ∈ homepage ++ asctime now, c ≠ 0 := by
  rw [List.forall_mem_append]
  exact ⟨List.all_iff_forall_prop.mp (by decide), asctime_clean now⟩

theorem notFoundBody_clean : ∀ c ∈ bytes "404 Not Found!!\n", c ≠ 0 :=
  List.all_iff_forall_prop.mp (by decide)

theorem contentType_clean : ∀ c ∈ bytes "Content-Type", c ∉ [0, 10, 13] :=
  List.all_iff_forall_prop.mp (by decide)

theorem contentType_mark : ¬fieldMark <:+: bytes "Content-Type" := by decide

theorem html_clean : ∀ c ∈ bytes "text/html; charset=utf-8", c ∉ [0, 10, 13] :=
  List.all_iff_forall_prop.mp (by decide)

theorem plain_clean : ∀ c ∈ bytes "text/plain", c ∉ [0, 10, 13] :=
  List.all_iff_forall_prop.mp (by decide)

/-- What `middleware_homepage_handler` leaves for the path `/`. -/
def homepageText (now : Tm) : ResponseText where
  status := 200
  fields := [{ name := bytes "Content-Type", value := bytes "text/html; charset=utf-8"
               name_clean := contentType_clean, name_mark := contentType_mark
               value_clean := html_clean }]
  body := some (homepage ++ asctime now)
  body_clean := homepageBody_clean now

/-- What `middleware_404_handler` leaves. -/
def notFoundText : ResponseText where
  status := 404
  fields := [{ name := bytes "Content-Type", value := bytes "text/plain"
               name_clean := contentType_clean, name_mark := contentType_mark
               value_clean := plain_clean }]
  body := some (bytes "404 Not Found!!\n")
  body_clean := notFoundBody_clean

/-- What the chain leaves. -/
def mainText (now : Tm) (request : Request) : ResponseText :=
  if request.path = bytes "/" then homepageText now else notFoundText

/-- The chain stops at the home page or at the 404 page. -/
theorem runMiddlewares_main (surroundings : Surroundings) (request : Request) :
    ∃ answer, runMiddlewares surroundings request mainMiddlewares Answer.create = .ok answer ∧
      answer.toResponse = (mainText surroundings.now request).response := by
  by_cases hpath : request.path = bytes "/"
  · -- the logger goes on, and the home page stops the chain
    refine ⟨(middlewareHomepageHandler surroundings.now request Answer.create).2, ?_, ?_⟩
    · simp [mainMiddlewares, runMiddlewares, Middleware.handler, middlewareLoggerHandler,
        middlewareHomepageHandler, hpath, Answer.create, responseCreate]
      rfl
    · simp only [middlewareHomepageHandler, mainText, if_pos hpath]
      rfl
  · -- both go on, and the 404 page stops the chain
    refine ⟨(middleware404Handler request Answer.create).2, ?_, ?_⟩
    · simp [mainMiddlewares, runMiddlewares, Middleware.handler, middlewareLoggerHandler,
        middlewareHomepageHandler, middleware404Handler, hpath, Answer.create, responseCreate]
      rfl
    · rw [mainText, if_neg hpath]
      rfl

/-- The length of a short page. -/
theorem length_rendering_le (r : ResponseText) (hstatus : r.status ∈ statuses)
    (hcontent : r.content.length < 1000) :
    r.rendering.length ≤ (headerText r.headers).length + r.content.length + 40 := by
  have hname : (bytes "Content-Length: ").length = 16 := rfl
  have hend : (bytes "\r\n").length = 2 := rfl
  have hdigits : (decimal r.content.length).length ≤ 3 :=
    (length_decimal_natCast_le_iff (by decide)).mpr hcontent
  simp only [ResponseText.rendering, List.length_append, length_statusLine hstatus, contentLength,
    hname, hend]
  omega

/-- Both pages fit into the text buffer. -/
theorem mainText_fits (now : Tm) (request : Request) :
    (mainText now request).rendering.length < textBufferSize := by
  have hroom : 1000 < textBufferSize := by decide
  refine lt_of_le_of_lt ?_ hroom
  unfold mainText
  split
  · -- the page and the time, which is short for every calendar time
    have hcontent : (homepageText now).content.length ≤ 196 := by
      show (homepage ++ asctime now).length ≤ 196
      rw [List.length_append, length_homepage]
      exact Nat.add_le_add_left (length_asctime_le now) 156
    have hheaders : (headerText (homepageText now).headers).length = 40 := rfl
    have hlength := length_rendering_le (homepageText now) List.mem_cons_self (by omega)
    omega
  · decide

/-- **The chain of main** writes one text for every request that is parsed. -/
theorem handleClient_main {input : List UInt8} {request : Request}
    (hparse : requestParse (receiveBuffer bufferSize input) = .ok request)
    (surroundings : Surroundings) :
    handleClient mainMiddlewares surroundings input =
      .ok [(mainText surroundings.now request).rendering] := by
  obtain ⟨answer, hrun, hanswer⟩ := runMiddlewares_main surroundings request
  have hstream : answer.toResponse.bodyStream = none := by rw [hanswer]; rfl
  rw [handleClient_of_parse hparse, hrun, ok_bind]
  unfold sendResponse
  rw [hstream, hanswer, ResponseText.responseToString_response _ (mainText_fits _ _)]
  rfl

/-! ## What a client reads -/

/-- The text reads back. -/
theorem readSized_rendering (r : ResponseText) : readSized r.rendering = some (r.decoded, []) := by
  have hclean : ∀ field ∈ r.decoded.fields, field.Clean := by
    intro field hfield
    rcases List.mem_cons.mp hfield with rfl | hfield
    · exact lengthField_clean r.content.length
    · obtain ⟨f, -, rfl⟩ := List.mem_map.mp hfield
      exact f.stored_clean
  rw [ResponseText.rendering_eq]
  exact readSized_text (by decide) hclean r.lengthOf_decoded []

/-- A page as a client reads it. -/
def page (status : ℤ) (contentType body : List UInt8) : SizedResponse where
  status := status
  fields := [{ name := lengthName, value := decimal body.length },
    { name := bytes "content-type", value := contentType }]
  length := body.length
  body := body

/-- The answer of the server of `main` to a request. -/
def mainAnswer (now : Tm) (request : Request) : SizedResponse :=
  if request.path = bytes "/" then
    page 200 (bytes "text/html; charset=utf-8") (homepage ++ asctime now)
  else page 404 (bytes "text/plain") (bytes "404 Not Found!!\n")

theorem decoded_mainText (now : Tm) (request : Request) :
    (mainText now request).decoded = mainAnswer now request := by
  unfold mainText mainAnswer
  split <;> rfl

variable {n : ℕ} {s : Server n} {events : List (Event n)}

/-- What has been done with a connection that asks for the home page. -/
def homepageVisit : Connection where
  received := [oneHeader.text]
  sent := [(homepageText epoch).rendering]
  closes := 1
  disturbed := false

theorem homepage_run (fopen : List UInt8 → Option (List (List UInt8))) :
    ∃ s : Server 1, Run (Guarded HasRoom (ServerStep mainMiddlewares)) (serverStart 1)
        (readEvents ++ .respond 0 { now := epoch, fopen := fopen } [] :: [.write 0 1000, .close 0])
        s ∧
      s.connections = [homepageVisit] := by
  have hclient := handleClient_main (oneHeader.requestParse_text (by decide) (by decide))
    { now := epoch, fopen := fopen }
  have hwrite : ((readRun mainMiddlewares).bind (writeRun mainMiddlewares
        (homepageText epoch).rendering [.write 0 1000, .close 0])).map Server.connections =
      some [homepageVisit] := by decide +kernel
  obtain ⟨t, ht, hconnections⟩ := Option.map_eq_some_iff.mp hwrite
  exact ⟨t, response_run hclient (by decide +kernel) ht, hconnections⟩

end NetworkServers.Http
