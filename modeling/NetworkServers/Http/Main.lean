import NetworkServers.Http.EnqueueSteps
import NetworkServers.Library.Runs

/-!
# Main and its Signal Handler

`src/src/main.c` with the functions that `main` calls from there: `init_chat_server` and
`start_chat_server` of `src/src/chat-server.c`, `server_middlewares_add` of
`src/src/middleware.c`, `server_create` and `server_start` of `src/src/http-server.c`, and
`thread_pool_push` of `src/src/pool.c`. A signal stops `main` between two of its steps for
good, and `cleanup` runs on what the three globals reach at that moment.

One step of `main` is up to the next change of what the globals reach. A call of the C
library is one step. A call whose failure makes `main` exit has no step then.
-/

namespace NetworkServers.Main

open NetworkServers.Queue NetworkServers.Runs NetworkServers.Machine

/-! ## The globals -/

/-- `struct ChatClient`. -/
structure ChatClient where
  name : String
  socket : ℤ
deriving DecidableEq, Repr

/-- `struct ChatServerConfig`. -/
structure ChatServerConfig where
  maxNameLength : ℕ
  maxClients : ℕ
  messageBufferSize : ℕ
  serverPort : ℕ
deriving DecidableEq, Repr

/-- `struct ChatServer`. A field is `none` until it is initialised. -/
structure ChatServer where
  clients : Option (List ChatClient)
  clientCount : Option ℕ
  clientIncrement : Option ℕ
  serverMutex : Option Mutex
  config : Option ChatServerConfig
  socket : Option ℤ
  /-- The port of `address`. -/
  address : Option ℕ
deriving DecidableEq, Repr

/-- What `malloc` returns. -/
def ChatServer.allocated : ChatServer where
  clients := none
  clientCount := none
  clientIncrement := none
  serverMutex := none
  config := none
  socket := none
  address := none

/-- The handlers that `main` registers. -/
inductive Handler where
  | logger
  | homepage
  | notFound
deriving DecidableEq, Repr

/-- `struct ServerMiddleware`. A field is `none` until it is initialised. -/
structure ServerMiddleware where
  name : Option String
  handler : Option Handler
deriving DecidableEq, Repr

/-- `struct ServerMiddlewares`. The array is `NULL` while it is empty. -/
structure ServerMiddlewares where
  middlewares : List ServerMiddleware
  size : ℕ
deriving DecidableEq, Repr

/-- `struct ServerConfig`. -/
structure ServerConfig where
  address : String
  port : ℕ
  clientLimit : ℕ
  workerLimit : ℕ
  bufferSize : ℕ
  middlewares : ServerMiddlewares
  debug : Bool
deriving DecidableEq, Repr

/-- What the queue of the pool holds: the socket of a client, or `NULL`. -/
abbrev Item := Option ℤ

/-- `struct ThreadPool`. -/
structure ThreadPool where
  size : ℕ
  queue : SafeQueue Item
  running : Bool
deriving DecidableEq, Repr

/-- `struct Server`. Its `config` is the global. -/
structure Server where
  sockfd : ℤ
  pool : Option ThreadPool
deriving DecidableEq, Repr

/-- The globals of `main.c`; `none` is `NULL`. -/
structure Globals where
  chatServer : Option ChatServer
  config : Option ServerConfig
  server : Option Server
deriving DecidableEq, Repr

/-! ## The handler -/

/-- What `cleanup` must not do. -/
inductive CleanupFault where
  /-- A null pointer is followed. -/
  | null
  /-- Something is used that has not been initialised. -/
  | uninitialised
  /-- A mutex is locked that the interrupted thread holds. -/
  | relock
deriving DecidableEq, Repr

/-- The main thread. -/
def mainThread : ThreadId := 0

/-- A pointer is followed. -/
def nonNull {α : Type} : Option α → Except CleanupFault α
  | some a => .ok a
  | none => .error .null

/-- A field is read. -/
def initialised {α : Type} : Option α → Except CleanupFault α
  | some a => .ok a
  | none => .error .uninitialised

/-- `pthread_mutex_lock` in the handler. The other threads go on, so a mutex that one of them
holds is given back. -/
def lockInHandler (m : Mutex) : Except CleanupFault Unit :=
  match mutexLock .normal mainThread m with
  | .error .relock => .error .relock
  | _ => .ok ()

/-- The locks of `safe_queue_enqueue` in the handler. -/
def enqueueInHandler (queue : SafeQueue Item) : Except CleanupFault Unit := do
  if queue.size = queue.capacity then lockInHandler queue.mutex
  lockInHandler queue.mutex

/-- `thread_pool_destroy`: one `NULL` for each worker, the joins, and `safe_queue_destroy`. What
the workers do to the queue meanwhile does not change who holds its mutex now. -/
def threadPoolDestroy (pool : Option ThreadPool) : Except CleanupFault Unit := do
  let pool ← nonNull pool
  (List.range pool.size).forM fun _ => enqueueInHandler pool.queue
  lockInHandler pool.queue.mutex

/-- `server_stop`. -/
def serverStop (config : Option ServerConfig) (server : Server) : Except CleanupFault Unit := do
  threadPoolDestroy server.pool
  let _ ← nonNull config
  return ()

/-- `server_destroy`. -/
def serverDestroy (config : Option ServerConfig) : Except CleanupFault Unit := do
  let _ ← nonNull config
  return ()

/-- `server_middlewares_destroy`. -/
def serverMiddlewaresDestroy (middlewares : ServerMiddlewares) : Except CleanupFault Unit :=
  (List.range middlewares.size).forM fun i => do
    let middleware ← match middlewares.middlewares with
      | [] => .error .null
      | array => initialised array[i]?
    let _ ← initialised middleware.name
    return ()

/-- `destroy_chat_server`. -/
def destroyChatServer (server : ChatServer) : Except CleanupFault Unit := do
  let clientCount ← initialised server.clientCount
  (List.range clientCount).forM fun i => do
    let clients ← initialised server.clients
    let _ ← initialised clients[i]?
    return ()
  let _ ← initialised server.clients
  let _ ← initialised server.serverMutex
  let _ ← initialised server.socket
  return ()

/-- `cleanup`, up to its `exit`. -/
def cleanup (globals : Globals) : Except CleanupFault Unit := do
  if let some server := globals.server then
    serverStop globals.config server
    serverDestroy globals.config
  if let some config := globals.config then
    serverMiddlewaresDestroy config.middlewares
  if let some chatServer := globals.chatServer then
    destroyChatServer chatServer

/-! ## Main -/

/-- What the environment variables make of the configurations. -/
structure Environment where
  chatConfig : ChatServerConfig
  debug : Bool
deriving DecidableEq, Repr

/-- The statement that the main thread comes to next. -/
inductive Point where
  /-- The signal handlers are installed, and `chat_server` is to be allocated. -/
  | allocatingChatServer
  | initClients
  | initClientCount
  | initClientIncrement
  | initMutex
  | initConfig
  | initSocket
  | initAddress
  /-- `listen` in `start_chat_server`. -/
  | listening
  /-- `pthread_create` in `start_chat_server`. -/
  | startingThread
  /-- The assignment of `config`. -/
  | creatingConfig
  /-- `size++` in `server_middlewares_add` of the first of the rest. -/
  | adding (rest : List (String × Handler))
  /-- `realloc` in `server_middlewares_add`. -/
  | reallocating (name : String) (handler : Handler) (rest : List (String × Handler))
  | settingName (name : String) (handler : Handler) (rest : List (String × Handler))
  | settingHandler (handler : Handler) (rest : List (String × Handler))
  | settingDebug
  /-- The assignment of `server`. -/
  | creatingServer
  /-- `listen` in `server_start`. -/
  | startingServer
  /-- The assignment of `server->pool`. -/
  | creatingPool
  | accepting
  /-- The test of `running` in `thread_pool_push`. -/
  | pushing (clientSockfd : ℤ)
  /-- In `safe_queue_enqueue`. -/
  | enqueuing (p : EnqueuePoint Item)
deriving DecidableEq, Repr

/-- The main thread and what the globals reach. `chatRunning` is set when the thread of the chat
server has been started. -/
structure State where
  globals : Globals
  point : Point
  chatRunning : Bool
deriving DecidableEq, Repr

/-- After the calls of `signal`. -/
def State.initial : State where
  globals := { chatServer := none, config := none, server := none }
  point := .allocatingChatServer
  chatRunning := false

/-- `server_config_create`. -/
def serverConfigCreate : ServerConfig where
  address := "0.0.0.0"
  port := 8080
  clientLimit := 4096 - 1
  workerLimit := 4
  bufferSize := 1024 * 1024
  middlewares := { middlewares := [], size := 0 }
  debug := false

/-- `thread_pool_create`. -/
def threadPoolCreate (size : ℕ) : ThreadPool where
  size := size
  queue := safeQueueCreate
  running := true

/-- The middlewares that `main` adds. -/
def added : List (String × Handler) :=
  [("Logger", .logger), ("Home Page", .homepage), ("404", .notFound)]

/-- The array after `realloc` to the size. -/
def reallocated (m : ServerMiddlewares) : List ServerMiddleware :=
  m.middlewares.take m.size ++
    List.replicate (m.size - m.middlewares.length) { name := none, handler := none }

/-- A statement about `chat_server`. -/
def State.onChatServer (s : State) (f : ChatServer → ChatServer) (next : Point) : State :=
  { s with
    globals := { s.globals with chatServer := s.globals.chatServer.map f }
    point := next }

/-- A statement about `config->middlewares`. -/
def State.onMiddlewares (s : State) (f : ServerMiddlewares → ServerMiddlewares) (next : Point) :
    State :=
  { s with
    globals := { s.globals with
      config := s.globals.config.map fun c => { c with middlewares := f c.middlewares } }
    point := next }

/-- A statement about `server->pool`. -/
def State.onPool (s : State) (pool : ThreadPool) (next : Point) : State :=
  { s with
    globals := { s.globals with
      server := s.globals.server.map fun server => { server with pool := some pool } }
    point := next }

/-- One step of the main thread; `answer` is what the system call of the step returns. -/
def mainStep (environment : Environment) (s : State) (answer : ℤ) : Option State :=
  match s.point with
  | .allocatingChatServer =>
    some { s with
      globals := { s.globals with chatServer := some .allocated }
      point := .initClients }
  | .initClients => some (s.onChatServer (fun c => { c with clients := some [] }) .initClientCount)
  | .initClientCount =>
    some (s.onChatServer (fun c => { c with clientCount := some 0 }) .initClientIncrement)
  | .initClientIncrement =>
    some (s.onChatServer (fun c => { c with clientIncrement := some 0 }) .initMutex)
  | .initMutex =>
    some (s.onChatServer (fun c => { c with serverMutex := some Mutex.free }) .initConfig)
  | .initConfig =>
    some (s.onChatServer (fun c => { c with config := some environment.chatConfig }) .initSocket)
  | .initSocket => some (s.onChatServer (fun c => { c with socket := some answer }) .initAddress)
  | .initAddress =>
    some (s.onChatServer (fun c => { c with address := some environment.chatConfig.serverPort })
      .listening)
  | .listening => if answer = 0 then some { s with point := .startingThread } else none
  | .startingThread => some { s with point := .creatingConfig, chatRunning := true }
  | .creatingConfig =>
    some { s with
      globals := { s.globals with config := some serverConfigCreate }
      point := .adding added }
  | .adding ((name, handler) :: rest) =>
    some (s.onMiddlewares (fun m => { m with size := m.size + 1 }) (.reallocating name handler rest))
  | .adding [] => some { s with point := .settingDebug }
  | .reallocating name handler rest =>
    some (s.onMiddlewares (fun m => { m with middlewares := reallocated m })
      (.settingName name handler rest))
  | .settingName name handler rest =>
    some (s.onMiddlewares
      (fun m => { m with
        middlewares := m.middlewares.modify (m.size - 1) ({ · with name := some name }) })
      (.settingHandler handler rest))
  | .settingHandler handler rest =>
    some (s.onMiddlewares
      (fun m => { m with
        middlewares := m.middlewares.modify (m.size - 1) ({ · with handler := some handler }) })
      (.adding rest))
  | .settingDebug =>
    some { s with
      globals := { s.globals with
        config := s.globals.config.map fun c => { c with debug := environment.debug } }
      point := .creatingServer }
  | .creatingServer =>
    -- the descriptor; negative if `socket` or `bind` has failed
    if answer < 0 then none
    else some { s with
      globals := { s.globals with server := some { sockfd := answer, pool := none } }
      point := .startingServer }
  | .startingServer => if answer < 0 then none else some { s with point := .creatingPool }
  | .creatingPool =>
    s.globals.config.map fun config => s.onPool (threadPoolCreate config.workerLimit) .accepting
  | .accepting =>
    if answer = -1 then some s else some { s with point := .pushing answer }
  | .pushing clientSockfd => do
    let server ← s.globals.server
    let pool ← server.pool
    if pool.running then some { s with point := .enqueuing (.testing (some clientSockfd)) }
    else some { s with point := .accepting }
  | .enqueuing p => do
    let server ← s.globals.server
    let pool ← server.pool
    let (next, queue) ← enqueueStep mainThread pool.queue p
    return s.onPool { pool with queue }
      (match next with
      | some p => .enqueuing p
      | none => .accepting)

/-- The steps of the process. -/
inductive Label where
  | main (answer : ℤ)
  /-- The threads of the chat server add and remove clients. -/
  | chat (clients : List ChatClient)
  /-- The workers do something to the queue. -/
  | workers (queue : SafeQueue Item)

/-- One step. The workers may do anything to the queue of which `main` does not hold the mutex,
except to make `main` hold it. -/
def step (environment : Environment) (s : State) : Label → Option State
  | .main answer => mainStep environment s answer
  | .chat clients =>
    if s.chatRunning then
      some (s.onChatServer
        (fun c => { c with clients := some clients, clientCount := some clients.length }) s.point)
    else none
  | .workers queue => do
    let server ← s.globals.server
    let pool ← server.pool
    if pool.queue.mutex.holder = some mainThread ∨ queue.mutex.holder = some mainThread then none
    else some (s.onPool { pool with queue } s.point)

/-- The steps as a relation. -/
def Steps (environment : Environment) (s : State) (l : Label) (t : State) : Prop :=
  step environment s l = some t

/-- `chat_server` is allocated and not yet initialised. -/
def Point.initialisesChat : Point → Bool
  | .initClients | .initClientCount | .initClientIncrement | .initMutex | .initConfig
  | .initSocket => true
  | _ => false

/-- A middleware is counted and has no name yet. -/
def Point.addsMiddleware : Point → Bool
  | .reallocating _ _ _ | .settingName _ _ _ => true
  | _ => false

/-- `server` has no pool yet. -/
def Point.lacksPool : Point → Bool
  | .startingServer | .creatingPool => true
  | _ => false

/-- The mutex of the queue is held. -/
def Point.holdsMutex : Point → Bool
  | .enqueuing p => p.holdsMutex
  | _ => false

/-- The points at which `main` may be interrupted. -/
def Point.isSafe (p : Point) : Bool :=
  !(p.initialisesChat || p.addsMiddleware || p.lacksPool || p.holdsMutex)

/-! ## What the handler needs -/

theorem lockInHandler_ok {m : Mutex} :
    lockInHandler m = .ok () ↔ m.holder ≠ some mainThread := by
  unfold lockInHandler mutexLock
  cases hholder : m.holder with
  | none => simp
  | some holder =>
    by_cases heq : holder = mainThread
    · simp [heq]
    · simp [heq]

/-- The pool is there, and the interrupted thread does not hold the mutex of its queue. -/
theorem threadPoolDestroy_ok {pool : Option ThreadPool} :
    threadPoolDestroy pool = .ok () ↔
      ∃ p, pool = some p ∧ p.queue.mutex.holder ≠ some mainThread := by
  cases pool with
  | none => simp [threadPoolDestroy, nonNull]
  | some pool =>
    simp only [threadPoolDestroy, nonNull, ok_bind, Option.some.injEq, exists_eq_left']
    constructor
    · intro h
      obtain ⟨-, -, hlock⟩ := bind_eq_ok.mp h
      exact lockInHandler_ok.mp hlock
    · intro hfree
      have hlock := lockInHandler_ok.mpr hfree
      have henqueue : enqueueInHandler pool.queue = .ok () := by
        unfold enqueueInHandler
        split <;> simp [hlock]
      refine bind_eq_ok.mpr ⟨(), ?_, hlock⟩
      exact forM_eq_ok.mpr fun _ _ => henqueue

theorem initialised_ok {β : Type} {a : Option β} {b : β} : initialised a = .ok b ↔ a = some b := by
  cases a with
  | none => exact iff_of_false (fun h => nomatch h) (fun h => nomatch h)
  | some a => simp [initialised]

/-- Every middleware that is counted has its name. -/
theorem serverMiddlewaresDestroy_ok {m : ServerMiddlewares} :
    serverMiddlewaresDestroy m = .ok () ↔
      ∀ i, i < m.size → ∃ middleware, m.middlewares[i]? = some middleware ∧
        middleware.name.isSome := by
  unfold serverMiddlewaresDestroy
  simp only [forM_eq_ok, List.mem_range]
  refine forall_congr' fun i => imp_congr_right fun _ => ?_
  cases hm : m.middlewares with
  | nil => simp
  | cons first rest =>
    simp only [bind_eq_ok, initialised_ok, Option.isSome_iff_exists]
    constructor
    · rintro ⟨middleware, hget, name, hname, -⟩
      exact ⟨middleware, hget, name, hname⟩
    · rintro ⟨middleware, hget, name, hname⟩
      exact ⟨middleware, hget, name, hname, rfl⟩

/-- Everything that `destroy_chat_server` reads. -/
structure ChatServer.Initialised (c : ChatServer) : Prop where
  clients : ∃ clients, c.clients = some clients ∧ c.clientCount = some clients.length
  serverMutex : c.serverMutex.isSome
  socket : c.socket.isSome

theorem destroyChatServer_ok {c : ChatServer} (h : c.Initialised) :
    destroyChatServer c = .ok () := by
  obtain ⟨⟨clients, hclients, hcount⟩, hmutex, hsocket⟩ := h
  obtain ⟨mutex, hmutex⟩ := Option.isSome_iff_exists.mp hmutex
  obtain ⟨socket, hsocket⟩ := Option.isSome_iff_exists.mp hsocket
  have hnames : ((List.range clients.length).forM fun i => do
      let clients ← initialised c.clients
      let _ ← initialised clients[i]?
      return ()) = (.ok () : Except CleanupFault Unit) := by
    apply forM_eq_ok.mpr
    intro i hi
    rw [hclients]
    change (initialised clients[i]? >>= fun _ => pure ()) = _
    rw [List.getElem?_eq_getElem (List.mem_range.mp hi)]
    rfl
  unfold destroyChatServer
  rw [hcount]
  refine bind_eq_ok.mpr ⟨_, rfl, bind_eq_ok.mpr ⟨(), hnames, ?_⟩⟩
  rw [hclients, hmutex, hsocket]
  rfl

theorem socket_of_destroyChatServer {c : ChatServer} (h : destroyChatServer c = .ok ()) :
    c.socket.isSome := by
  obtain ⟨_, _, h⟩ := bind_eq_ok.mp h
  obtain ⟨_, _, h⟩ := bind_eq_ok.mp h
  obtain ⟨_, _, h⟩ := bind_eq_ok.mp h
  obtain ⟨_, _, h⟩ := bind_eq_ok.mp h
  obtain ⟨socket, hsocket, -⟩ := bind_eq_ok.mp h
  rw [initialised_ok.mp hsocket]
  rfl

/-! ## The invariant -/

/-- The chat server at a point. -/
def ChatFits : Point → Option ChatServer → Prop
  | .allocatingChatServer, chatServer => chatServer = none
  | .initClients, chatServer => ∃ c, chatServer = some c ∧ c.socket = none
  | .initClientCount, chatServer => ∃ c, chatServer = some c ∧ c.socket = none ∧
      c.clients = some []
  | .initClientIncrement, chatServer | .initMutex, chatServer =>
    ∃ c, chatServer = some c ∧ c.socket = none ∧ c.clients = some [] ∧ c.clientCount = some 0
  | .initConfig, chatServer | .initSocket, chatServer =>
    ∃ c, chatServer = some c ∧ c.socket = none ∧ c.clients = some [] ∧ c.clientCount = some 0 ∧
      c.serverMutex.isSome
  | _, chatServer => ∃ c, chatServer = some c ∧ c.Initialised

/-- Every middleware is counted and has its name. -/
structure ServerMiddlewares.Named (m : ServerMiddlewares) : Prop where
  size : m.size = m.middlewares.length
  name : ∀ middleware ∈ m.middlewares, middleware.name.isSome

/-- The configuration at a point. -/
def ConfigFits : Point → Option ServerConfig → Prop
  | .allocatingChatServer, config | .initClients, config | .initClientCount, config
  | .initClientIncrement, config | .initMutex, config | .initConfig, config | .initSocket, config
  | .initAddress, config | .listening, config | .startingThread, config
  | .creatingConfig, config => config = none
  | .reallocating _ _ _, config =>
    ∃ c, config = some c ∧ c.middlewares.size = c.middlewares.middlewares.length + 1 ∧
      ∀ middleware ∈ c.middlewares.middlewares, middleware.name.isSome
  | .settingName _ _ _, config =>
    ∃ c named new, config = some c ∧ c.middlewares.middlewares = named ++ [new] ∧
      c.middlewares.size = named.length + 1 ∧ new.name = none ∧
      ∀ middleware ∈ named, middleware.name.isSome
  | _, config => ∃ c, config = some c ∧ c.middlewares.Named

/-- The HTTP server at a point. -/
def ServerFits : Point → Option Server → Prop
  | .startingServer, server | .creatingPool, server => ∃ s, server = some s ∧ s.pool = none
  | .accepting, server | .pushing _, server =>
    ∃ s pool, server = some s ∧ s.pool = some pool ∧
      pool.queue.mutex.holder ≠ some mainThread
  | .enqueuing p, server =>
    ∃ s pool, server = some s ∧ s.pool = some pool ∧
      MutexFits mainThread pool.queue.mutex (some p)
  | _, server => server = none

/-- The thread of the chat server may be running. -/
def Point.chatStarted : Point → Bool
  | .allocatingChatServer | .initClients | .initClientCount | .initClientIncrement | .initMutex
  | .initConfig | .initSocket | .initAddress | .listening | .startingThread => false
  | _ => true

structure Inv (s : State) : Prop where
  chat : ChatFits s.point s.globals.chatServer
  config : ConfigFits s.point s.globals.config
  server : ServerFits s.point s.globals.server
  chatRunning : s.chatRunning = true → s.point.chatStarted = true

theorem inv_initial : Inv State.initial where
  chat := rfl
  config := rfl
  server := rfl
  chatRunning := fun h => nomatch h

section Steps

variable {environment : Environment} {s t : State}

theorem onChatServer_eq {c : ChatServer} (h : s.globals.chatServer = some c)
    (f : ChatServer → ChatServer) (next : Point) :
    (s.onChatServer f next).globals.chatServer = some (f c) :=
  congrArg (Option.map f) h

theorem onMiddlewares_eq {c : ServerConfig} (h : s.globals.config = some c)
    (f : ServerMiddlewares → ServerMiddlewares) (next : Point) :
    (s.onMiddlewares f next).globals.config = some { c with middlewares := f c.middlewares } := by
  rw [State.onMiddlewares, h]
  rfl

theorem onPool_eq {server : Server} (h : s.globals.server = some server) (pool : ThreadPool)
    (next : Point) :
    (s.onPool pool next).globals.server = some { server with pool := some pool } := by
  rw [State.onPool, h]
  rfl

/-- The array after `realloc` has the new slot at its end. -/
theorem reallocated_eq {m : ServerMiddlewares} (h : m.size = m.middlewares.length + 1) :
    reallocated m = m.middlewares ++ [{ name := none, handler := none }] := by
  rw [reallocated, h, List.take_of_length_le (Nat.le_succ _), Nat.add_sub_cancel_left]
  rfl

/-- A change of the last slot. -/
theorem modify_last (named : List ServerMiddleware) (new : ServerMiddleware)
    (f : ServerMiddleware → ServerMiddleware) :
    (named ++ [new]).modify (named.length + 1 - 1) f = named ++ [f new] := by
  induction named with
  | nil => rfl
  | cons first named ih => simpa using ih

/-- A change of one slot that leaves its name alone. -/
theorem named_modify {array : List ServerMiddleware}
    (h : ∀ middleware ∈ array, middleware.name.isSome) (handler : Handler) (i : ℕ) :
    ∀ middleware ∈ array.modify i ({ · with handler := some handler }),
      middleware.name.isSome := by
  induction array generalizing i with
  | nil => simp
  | cons first array ih =>
    obtain ⟨hfirst, harray⟩ := List.forall_mem_cons.mp h
    cases i with
    | zero => simpa using h
    | succ i =>
      rw [List.modify_succ_cons]
      exact List.forall_mem_cons.mpr ⟨hfirst, ih harray i⟩

/-- **Step lemma** for the main thread: at each point it finds what it has left there. -/
theorem Inv.mainStep (h : Inv s) {answer : ℤ} (hstep : mainStep environment s answer = some t) :
    Inv t := by
  obtain ⟨hchat, hconfig, hserver, hrunning⟩ := h
  obtain ⟨globals, point, chatRunning⟩ := s
  dsimp only at hchat hconfig hserver hrunning
  cases point with
  -- `init_chat_server`: every statement adds one field, the socket comes last
  | allocatingChatServer =>
    obtain rfl := Option.some.inj hstep
    exact ⟨⟨_, rfl, rfl⟩, hconfig, hserver, hrunning⟩
  | initClients =>
    obtain rfl := Option.some.inj hstep
    obtain ⟨c, hc, hsocket⟩ := hchat
    exact ⟨⟨_, onChatServer_eq hc _ _, hsocket, rfl⟩, hconfig, hserver, hrunning⟩
  | initClientCount =>
    obtain rfl := Option.some.inj hstep
    obtain ⟨c, hc, hsocket, hclients⟩ := hchat
    exact ⟨⟨_, onChatServer_eq hc _ _, hsocket, hclients, rfl⟩, hconfig, hserver, hrunning⟩
  | initClientIncrement =>
    obtain rfl := Option.some.inj hstep
    obtain ⟨c, hc, hsocket, hclients⟩ := hchat
    exact ⟨⟨_, onChatServer_eq hc _ _, hsocket, hclients⟩, hconfig, hserver, hrunning⟩
  | initMutex =>
    obtain rfl := Option.some.inj hstep
    obtain ⟨c, hc, hsocket, hclients, hcount⟩ := hchat
    exact ⟨⟨_, onChatServer_eq hc _ _, hsocket, hclients, hcount, rfl⟩, hconfig, hserver, hrunning⟩
  | initConfig =>
    obtain rfl := Option.some.inj hstep
    obtain ⟨c, hc, hsocket, hclients⟩ := hchat
    exact ⟨⟨_, onChatServer_eq hc _ _, hsocket, hclients⟩, hconfig, hserver, hrunning⟩
  | initSocket =>
    obtain rfl := Option.some.inj hstep
    obtain ⟨c, hc, -, hclients, hcount, hmutex⟩ := hchat
    exact ⟨⟨_, onChatServer_eq hc _ _, ⟨[], hclients, hcount⟩, hmutex, rfl⟩, hconfig, hserver,
      hrunning⟩
  | initAddress =>
    obtain rfl := Option.some.inj hstep
    obtain ⟨c, hc, hclients, hmutex, hsocket⟩ := hchat
    exact ⟨⟨_, onChatServer_eq hc _ _, hclients, hmutex, hsocket⟩, hconfig, hserver, hrunning⟩
  | listening =>
    obtain ⟨-, heq⟩ := Option.ite_none_right_eq_some.mp hstep
    obtain rfl := Option.some.inj heq
    exact ⟨hchat, hconfig, hserver, hrunning⟩
  | startingThread =>
    obtain rfl := Option.some.inj hstep
    exact ⟨hchat, hconfig, hserver, fun _ => rfl⟩
  | creatingConfig =>
    obtain rfl := Option.some.inj hstep
    exact ⟨hchat, ⟨_, rfl, rfl, List.forall_mem_nil _⟩, hserver, hrunning⟩
  -- `server_middlewares_add`: counted, then given a slot, then a name
  | adding rest =>
    obtain ⟨c, hc, hsize, hnames⟩ := hconfig
    cases rest with
    | nil =>
      obtain rfl := Option.some.inj hstep
      exact ⟨hchat, ⟨c, hc, hsize, hnames⟩, hserver, hrunning⟩
    | cons first rest =>
      obtain rfl := Option.some.inj hstep
      exact ⟨hchat, ⟨_, onMiddlewares_eq hc _ _, congrArg (· + 1) hsize, hnames⟩, hserver, hrunning⟩
  | reallocating name handler rest =>
    obtain rfl := Option.some.inj hstep
    obtain ⟨c, hc, hsize, hnames⟩ := hconfig
    exact ⟨hchat, ⟨_, _, _, onMiddlewares_eq hc _ _, reallocated_eq hsize, hsize, rfl, hnames⟩,
      hserver, hrunning⟩
  | settingName name handler rest =>
    obtain rfl := Option.some.inj hstep
    obtain ⟨c, named, new, hc, harray, hsize, -, hnames⟩ := hconfig
    refine ⟨hchat, ⟨_, onMiddlewares_eq hc _ _, ?_⟩, hserver, hrunning⟩
    dsimp only
    rw [harray, hsize, modify_last]
    refine ⟨by simp, fun middleware hmem => ?_⟩
    rcases List.mem_append.mp hmem with hold | hnew
    · exact hnames middleware hold
    · rw [List.mem_singleton.mp hnew]
      rfl
  | settingHandler handler rest =>
    obtain rfl := Option.some.inj hstep
    obtain ⟨c, hc, hsize, hnames⟩ := hconfig
    refine ⟨hchat, ⟨_, onMiddlewares_eq hc _ _, ?_, ?_⟩, hserver, hrunning⟩
    · rw [List.length_modify]
      exact hsize
    · exact named_modify hnames handler _
  | settingDebug =>
    obtain rfl := Option.some.inj hstep
    obtain ⟨c, hc, hnamed⟩ := hconfig
    exact ⟨hchat, ⟨_, congrArg (Option.map _) hc, hnamed⟩, hserver, hrunning⟩
  -- `server_create` and `server_start`: first a server, then its pool
  | creatingServer =>
    obtain ⟨-, heq⟩ := Option.ite_none_left_eq_some.mp hstep
    obtain rfl := Option.some.inj heq
    exact ⟨hchat, hconfig, ⟨_, rfl, rfl⟩, hrunning⟩
  | startingServer =>
    obtain ⟨-, heq⟩ := Option.ite_none_left_eq_some.mp hstep
    obtain rfl := Option.some.inj heq
    exact ⟨hchat, hconfig, hserver, hrunning⟩
  | creatingPool =>
    obtain ⟨config, -, rfl⟩ := Option.map_eq_some_iff.mp hstep
    obtain ⟨server, hserver, -⟩ := hserver
    exact ⟨hchat, hconfig, ⟨_, _, onPool_eq hserver _ _, rfl, fun h => nomatch h⟩, hrunning⟩
  | accepting =>
    simp only [Main.mainStep] at hstep
    split at hstep <;>
    · obtain rfl := Option.some.inj hstep
      exact ⟨hchat, hconfig, hserver, hrunning⟩
  | pushing clientSockfd =>
    obtain ⟨server, pool, hs, hpool, hfree⟩ := hserver
    simp only [Main.mainStep, hs, hpool, Option.bind_eq_bind, Option.bind_some] at hstep
    split at hstep
    · obtain rfl := Option.some.inj hstep
      exact ⟨hchat, hconfig, ⟨server, pool, hs, hpool, hfree⟩, hrunning⟩
    · obtain rfl := Option.some.inj hstep
      exact ⟨hchat, hconfig, ⟨server, pool, hs, hpool, hfree⟩, hrunning⟩
  | enqueuing p =>
    obtain ⟨server, pool, hs, hpool, hmutex⟩ := hserver
    simp only [Main.mainStep, hs, hpool, Option.bind_eq_bind, Option.bind_some] at hstep
    obtain ⟨⟨next, queue⟩, henqueue, hreturn⟩ := Option.bind_eq_some_iff.mp hstep
    obtain rfl := Option.some.inj hreturn
    have hnext := enqueueStep_mutexFits hmutex henqueue
    -- back in the accept loop, or at the next statement of `safe_queue_enqueue`
    cases next with
    | none =>
      exact ⟨hchat, hconfig, ⟨_, _, onPool_eq hs _ _, rfl, hnext⟩, hrunning⟩
    | some p =>
      exact ⟨hchat, hconfig, ⟨_, _, onPool_eq hs _ _, rfl, hnext⟩, hrunning⟩

/-- The threads of the chat server find it initialised, and leave it so. -/
theorem Inv.chatStep (h : Inv s) (hrunning : s.chatRunning = true) (clients : List ChatClient) :
    Inv (s.onChatServer
      (fun c => { c with clients := some clients, clientCount := some clients.length })
      s.point) := by
  obtain ⟨globals, point, chatRunning⟩ := s
  refine ⟨?_, h.config, h.server, h.chatRunning⟩
  have hstarted := h.chatRunning hrunning
  have hchat := h.chat
  cases point with
  | allocatingChatServer | initClients | initClientCount | initClientIncrement | initMutex
  | initConfig | initSocket | initAddress | listening | startingThread => cases hstarted
  | creatingConfig | adding | reallocating | settingName | settingHandler | settingDebug
  | creatingServer | startingServer | creatingPool | accepting | pushing | enqueuing =>
    obtain ⟨c, hc, -, hmutex, hsocket⟩ := hchat
    exact ⟨_, onChatServer_eq hc _ _, ⟨clients, rfl, rfl⟩, hmutex, hsocket⟩

/-- The workers leave the mutex to `main` if it holds it. -/
theorem Inv.workersStep (h : Inv s) {server : Server} {pool : ThreadPool}
    (hs : s.globals.server = some server) (hpool : server.pool = some pool)
    {queue : SafeQueue Item} (hbefore : pool.queue.mutex.holder ≠ some mainThread)
    (hafter : queue.mutex.holder ≠ some mainThread) :
    Inv (s.onPool { pool with queue } s.point) := by
  obtain ⟨globals, point, chatRunning⟩ := s
  refine ⟨h.chat, h.config, ?_, h.chatRunning⟩
  have hserver := h.server
  dsimp only at hs
  cases point with
  | startingServer | creatingPool =>
    obtain ⟨server', hs', hnone⟩ := hserver
    obtain rfl := Option.some.inj (hs.symm.trans hs')
    exact nomatch hpool.symm.trans hnone
  | accepting | pushing => exact ⟨_, _, onPool_eq hs _ _, rfl, hafter⟩
  | enqueuing p =>
    obtain ⟨server', pool', hs', hpool', hmutex⟩ := hserver
    obtain rfl := Option.some.inj (hs.symm.trans hs')
    obtain rfl := Option.some.inj (hpool.symm.trans hpool')
    refine ⟨_, _, onPool_eq hs _ _, rfl, ?_⟩
    -- `main` is not between a lock and its unlock
    by_cases hholds : p.holdsMutex = true
    · simp only [MutexFits, if_pos hholds] at hmutex
      exact absurd (congrArg Mutex.holder hmutex) hbefore
    · simp only [MutexFits, if_neg hholds]
      exact hafter
  | allocatingChatServer | initClients | initClientCount | initClientIncrement | initMutex
  | initConfig | initSocket | initAddress | listening | startingThread | creatingConfig | adding
  | reallocating | settingName | settingHandler | settingDebug | creatingServer =>
    exact nomatch hs.symm.trans hserver

theorem Inv.step (h : Inv s) {l : Label} (hstep : Steps environment s l t) : Inv t := by
  cases l with
  | main answer => exact h.mainStep hstep
  | chat clients =>
    obtain ⟨hrunning, heq⟩ := Option.ite_none_right_eq_some.mp hstep
    obtain rfl := Option.some.inj heq
    exact h.chatStep hrunning clients
  | workers queue =>
    obtain ⟨server, hs, hstep⟩ := Option.bind_eq_some_iff.mp hstep
    obtain ⟨pool, hpool, hstep⟩ := Option.bind_eq_some_iff.mp hstep
    obtain ⟨hfree, heq⟩ := Option.ite_none_left_eq_some.mp hstep
    obtain rfl := Option.some.inj heq
    obtain ⟨hbefore, hafter⟩ := not_or.mp hfree
    exact h.workersStep hs hpool hbefore hafter

/-- **Run lemma.** -/
theorem run_inv {ls : List Label} (hrun : Run (Steps environment) State.initial ls t) : Inv t :=
  hrun.invariant inv_initial fun _ _ _ h hstep => h.step hstep

end Steps

/-! ## The handler at a point -/

theorem serverDestroy_ok {config : Option ServerConfig} :
    serverDestroy config = .ok () ↔ config.isSome := by
  cases config with
  | none => exact iff_of_false (fun h => nomatch h) (fun h => nomatch h)
  | some config => exact iff_of_true rfl rfl

theorem serverStop_ok {config : Option ServerConfig} {server : Server} :
    serverStop config server = .ok () ↔ (∃ pool, server.pool = some pool ∧
      pool.queue.mutex.holder ≠ some mainThread) ∧ config.isSome := by
  rw [← threadPoolDestroy_ok, ← serverDestroy_ok, serverStop, unit_bind_eq_ok]
  rfl

/-- The three parts of `cleanup`, for the globals that are set. -/
theorem cleanup_ok {g : Globals} :
    cleanup g = .ok () ↔
      (∀ server, g.server = some server → serverStop g.config server = .ok ()) ∧
      (∀ config, g.config = some config →
        serverMiddlewaresDestroy config.middlewares = .ok ()) ∧
      ∀ c, g.chatServer = some c → destroyChatServer c = .ok () := by
  -- `server_destroy` needs nothing that `server_stop` has not used before
  have hserver : ∀ server,
      (serverStop g.config server >>= fun _ => serverDestroy g.config) = .ok () ↔
        serverStop g.config server = .ok () := by
    intro server
    rw [unit_bind_eq_ok]
    exact and_iff_left_of_imp fun hstop => serverDestroy_ok.mpr (serverStop_ok.mp hstop).2
  have hcleanup : cleanup g =
      (g.server.elim (pure ()) fun server =>
        serverStop g.config server >>= fun _ => serverDestroy g.config) >>= fun _ =>
      (g.config.elim (pure ()) fun config =>
        serverMiddlewaresDestroy config.middlewares) >>= fun _ =>
      g.chatServer.elim (pure ()) destroyChatServer := by
    obtain ⟨chatServer, config, server⟩ := g
    cases server <;> cases config <;> cases chatServer <;> simp [cleanup]
  rw [hcleanup, unit_bind_eq_ok, unit_bind_eq_ok, elim_eq_ok, elim_eq_ok, elim_eq_ok]
  simp only [hserver]

section Handler

variable {point : Point}

/-- The chat server has no socket exactly while it is initialised. -/
theorem ChatFits.ok_iff {chatServer : Option ChatServer} (h : ChatFits point chatServer) :
    (∀ c, chatServer = some c → destroyChatServer c = .ok ()) ↔ point.initialisesChat = false := by
  have hfails : (∃ c, chatServer = some c ∧ c.socket = none) →
      ¬ ∀ c, chatServer = some c → destroyChatServer c = .ok () := by
    rintro ⟨c, hc, hsocket⟩ hok
    have := socket_of_destroyChatServer (hok c hc)
    rw [hsocket] at this
    cases this
  cases point with
  | allocatingChatServer => exact iff_of_true (fun c hc => nomatch hc.symm.trans h) rfl
  | initClients | initClientCount | initClientIncrement | initMutex | initConfig | initSocket =>
    obtain ⟨c, hc, hfields⟩ := h
    refine iff_of_false (hfails ⟨c, hc, ?_⟩) (fun heq => nomatch heq)
    first | exact hfields | exact hfields.1
  | initAddress | listening | startingThread | creatingConfig | adding | reallocating | settingName
  | settingHandler | settingDebug | creatingServer | startingServer | creatingPool | accepting
  | pushing | enqueuing =>
    obtain ⟨c, hc, hinitialised⟩ := h
    refine iff_of_true (fun c' hc' => ?_) rfl
    obtain rfl := Option.some.inj (hc.symm.trans hc')
    exact destroyChatServer_ok hinitialised

/-- The name of a middleware is missing exactly while it is added. -/
theorem ConfigFits.ok_iff {config : Option ServerConfig} (h : ConfigFits point config) :
    (∀ c, config = some c → ∀ i, i < c.middlewares.size →
      ∃ middleware, c.middlewares.middlewares[i]? = some middleware ∧
        middleware.name.isSome) ↔ point.addsMiddleware = false := by
  cases point with
  | allocatingChatServer | initClients | initClientCount | initClientIncrement | initMutex
  | initConfig | initSocket | initAddress | listening | startingThread | creatingConfig =>
    exact iff_of_true (fun c hc => nomatch hc.symm.trans h) rfl
  | reallocating name handler rest =>
    obtain ⟨c, hc, hsize, -⟩ := h
    refine iff_of_false (fun hok => ?_) (fun heq => nomatch heq)
    -- the new slot is counted before `realloc` has made it
    obtain ⟨middleware, hget, -⟩ := hok c hc c.middlewares.middlewares.length (by omega)
    rw [List.getElem?_eq_none (Nat.le_refl _)] at hget
    cases hget
  | settingName name handler rest =>
    obtain ⟨c, named, new, hc, harray, hsize, hnew, -⟩ := h
    refine iff_of_false (fun hok => ?_) (fun heq => nomatch heq)
    -- the new slot is there, and its name is what `realloc` has left in it
    obtain ⟨middleware, hget, hname⟩ := hok c hc named.length (by omega)
    rw [harray, List.getElem?_concat_length] at hget
    rw [← Option.some.inj hget, hnew] at hname
    cases hname
  | adding | settingHandler | settingDebug | creatingServer | startingServer | creatingPool
  | accepting | pushing | enqueuing =>
    obtain ⟨c, hc, hsize, hnames⟩ := h
    refine iff_of_true (fun c' hc' i hi => ?_) rfl
    obtain rfl := Option.some.inj (hc.symm.trans hc')
    rw [hsize] at hi
    exact ⟨_, List.getElem?_eq_getElem hi, hnames _ (List.getElem_mem hi)⟩

/-- The pool is missing, or its mutex is held, exactly at the other two kinds of points. -/
theorem ServerFits.ok_iff {server : Option Server} (h : ServerFits point server) :
    (∀ s, server = some s → ∃ pool, s.pool = some pool ∧
      pool.queue.mutex.holder ≠ some mainThread) ↔
      point.lacksPool = false ∧ point.holdsMutex = false := by
  cases point with
  | startingServer | creatingPool =>
    obtain ⟨s, hs, hnone⟩ := h
    refine iff_of_false (fun hok => ?_) (fun heq => nomatch heq.1)
    obtain ⟨pool, hpool, -⟩ := hok s hs
    exact nomatch hnone.symm.trans hpool
  | accepting | pushing =>
    obtain ⟨s, pool, hs, hpool, hfree⟩ := h
    refine iff_of_true (fun s' hs' => ?_) ⟨rfl, rfl⟩
    obtain rfl := Option.some.inj (hs.symm.trans hs')
    exact ⟨pool, hpool, hfree⟩
  | enqueuing p =>
    obtain ⟨s, pool, hs, hpool, hmutex⟩ := h
    by_cases hholds : p.holdsMutex = true
    · simp only [MutexFits, if_pos hholds] at hmutex
      refine iff_of_false (fun hok => ?_) (fun heq => nomatch hholds.symm.trans heq.2)
      obtain ⟨pool', hpool', hfree⟩ := hok s hs
      obtain rfl := Option.some.inj (hpool.symm.trans hpool')
      exact hfree (congrArg Mutex.holder hmutex)
    · simp only [MutexFits, if_neg hholds] at hmutex
      refine iff_of_true (fun s' hs' => ?_) ⟨rfl, Bool.eq_false_iff.mpr hholds⟩
      obtain rfl := Option.some.inj (hs.symm.trans hs')
      exact ⟨pool, hpool, hmutex⟩
  | allocatingChatServer | initClients | initClientCount | initClientIncrement | initMutex
  | initConfig | initSocket | initAddress | listening | startingThread | creatingConfig | adding
  | reallocating | settingName | settingHandler | settingDebug | creatingServer =>
    exact iff_of_true (fun s hs => nomatch hs.symm.trans h) ⟨rfl, rfl⟩

/-- A server is created after its configuration. -/
theorem Inv.config_isSome {s : State} (h : Inv s) {server : Server}
    (hs : s.globals.server = some server) : s.globals.config.isSome := by
  obtain ⟨globals, point, chatRunning⟩ := s
  have hserver := h.server
  have hconfig := h.config
  dsimp only at hs
  cases point with
  | startingServer | creatingPool | accepting | pushing | enqueuing =>
    obtain ⟨c, hc, -⟩ := hconfig
    exact Option.isSome_of_eq_some hc
  | allocatingChatServer | initClients | initClientCount | initClientIncrement | initMutex
  | initConfig | initSocket | initAddress | listening | startingThread | creatingConfig | adding
  | reallocating | settingName | settingHandler | settingDebug | creatingServer =>
    exact nomatch hs.symm.trans hserver

end Handler

/-- Interrupted at any moment, `cleanup` does its work exactly if the main thread is at a safe
point. -/
theorem cleanup_ok_iff_isSafe {environment : Environment} {ls : List Label} {s : State}
    (hrun : Run (Steps environment) State.initial ls s) :
    cleanup s.globals = .ok () ↔ s.point.isSafe = true := by
  have h := run_inv hrun
  have hparts : s.point.isSafe = true ↔ (s.point.lacksPool = false ∧ s.point.holdsMutex = false) ∧
      s.point.addsMiddleware = false ∧ s.point.initialisesChat = false := by
    simp only [Point.isSafe, Bool.not_eq_true', Bool.or_eq_false_iff]
    tauto
  -- each kind of unsafe point is about one of the three globals
  rw [hparts, ← h.server.ok_iff, ← h.config.ok_iff, ← h.chat.ok_iff, cleanup_ok]
  simp only [serverStop_ok, serverMiddlewaresDestroy_ok]
  refine and_congr_left fun _ => forall_congr' fun server => imp_congr_right fun hs => ?_
  exact and_iff_left (h.config_isSome hs)

/-- The configuration without environment variables. -/
def defaultEnvironment : Environment where
  chatConfig :=
    { maxNameLength := 32, maxClients := 256, messageBufferSize := 1024, serverPort := 30001 }
  debug := false

/-- The main thread alone, when every system call returns `0`. After 28 steps it waits for the
first client, and after 38 steps for the second one. -/
def alone (n : ℕ) : List Label := List.replicate n (.main 0)

theorem cleanup_ok_iff_isSafe_secondClient :
    ∃ s, Run (Steps defaultEnvironment) State.initial (alone 38) s ∧
      (cleanup s.globals = .ok () ↔ s.point.isSafe = true) := by
  have hsome : ((alone 38).foldlM (step defaultEnvironment) State.initial).isSome := by
    decide +kernel
  obtain ⟨s, hs⟩ := Option.isSome_iff_exists.mp hsome
  exact ⟨s, Run.of_foldlM hs, cleanup_ok_iff_isSafe (Run.of_foldlM hs)⟩

/-- The signal arrives while `main` has the mutex of the queue, to store its first client. -/
theorem not_cleanup_ok_storing : ¬ ∀ (ls : List Label) s,
    Run (Steps defaultEnvironment) State.initial ls s → cleanup s.globals = .ok () := by
  intro h
  have hrelock : ((alone 32).foldlM (step defaultEnvironment) State.initial).map
      (fun s => cleanup s.globals) = some (.error .relock) := by
    decide +kernel
  obtain ⟨s, hs, hcleanup⟩ := Option.map_eq_some_iff.mp hrelock
  exact nomatch hcleanup.symm.trans (h _ s (Run.of_foldlM hs))

end NetworkServers.Main
