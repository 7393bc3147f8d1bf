/-!
Declarations of the packages that name resolution knows without their sources.

Every package is a Go text of declarations alone: types, variables, and
functions without bodies.  The texts are read and resolved like any other
package.
-/

namespace TraceWeave.Types.Known

def contextSource : List String :=
  ["package context",
   "",
   "import \"time\"",
   "",
   "type Context interface \x7b",
   "\tDeadline() (deadline time.Time, ok bool)",
   "\tDone() <-chan struct\x7b\x7d",
   "\tErr() error",
   "\tValue(key any) any",
   "\x7d",
   "",
   "type CancelFunc func()",
   "",
   "func Background() Context",
   "func TODO() Context",
   "func WithCancel(parent Context) (Context, CancelFunc)",
   "func WithTimeout(parent Context, timeout time.Duration) (Context, CancelFunc)",
   "func WithValue(parent Context, key, val any) Context"]

def databaseSqlSource : List String :=
  ["package sql",
   "",
   "import \"context\"",
   "",
   "type DB struct\x7b\x7d",
   "type Row struct\x7b\x7d",
   "type Rows struct\x7b\x7d",
   "",
   "type Result interface \x7b",
   "\tLastInsertId() (int64, error)",
   "\tRowsAffected() (int64, error)",
   "\x7d",
   "",
   "var ErrNoRows error",
   "",
   "func Open(driverName, dataSourceName string) (*DB, error)",
   "func (db *DB) Query(query string, args ...any) (*Rows, error)",
   "func (db *DB) QueryContext(ctx context.Context, query string, args ...any) (*Rows, error)",
   "func (db *DB) QueryRow(query string, args ...any) *Row",
   "func (db *DB) QueryRowContext(ctx context.Context, query string, args ...any) *Row",
   "func (db *DB) Exec(query string, args ...any) (Result, error)",
   "func (db *DB) ExecContext(ctx context.Context, query string, args ...any) (Result, error)",
   "func (db *DB) Ping() error",
   "func (db *DB) Close() error",
   "func (r *Row) Scan(dest ...any) error",
   "func (rs *Rows) Next() bool",
   "func (rs *Rows) Scan(dest ...any) error",
   "func (rs *Rows) Close() error",
   "func (rs *Rows) Err() error"]

def encodingJsonSource : List String :=
  ["package json",
   "",
   "import \"io\"",
   "",
   "type Decoder struct\x7b\x7d",
   "type Encoder struct\x7b\x7d",
   "",
   "func Marshal(v any) ([]byte, error)",
   "func MarshalIndent(v any, prefix, indent string) ([]byte, error)",
   "func Unmarshal(data []byte, v any) error",
   "func NewDecoder(r io.Reader) *Decoder",
   "func NewEncoder(w io.Writer) *Encoder",
   "func (dec *Decoder) Decode(v any) error",
   "func (enc *Encoder) Encode(v any) error"]

def errorsSource : List String :=
  ["package errors",
   "",
   "func New(text string) error",
   "func Is(err, target error) bool",
   "func As(err error, target any) bool",
   "func Unwrap(err error) error",
   "func Join(errs ...error) error"]

def fmtSource : List String :=
  ["package fmt",
   "",
   "import \"io\"",
   "",
   "func Print(a ...any) (n int, err error)",
   "func Println(a ...any) (n int, err error)",
   "func Printf(format string, a ...any) (n int, err error)",
   "func Sprint(a ...any) string",
   "func Sprintf(format string, a ...any) string",
   "func Errorf(format string, a ...any) error",
   "func Fprint(w io.Writer, a ...any) (n int, err error)",
   "func Fprintf(w io.Writer, format string, a ...any) (n int, err error)",
   "func Fprintln(w io.Writer, a ...any) (n int, err error)"]

def ioSource : List String :=
  ["package io",
   "",
   "type Reader interface \x7b",
   "\tRead(p []byte) (n int, err error)",
   "\x7d",
   "",
   "type Writer interface \x7b",
   "\tWrite(p []byte) (n int, err error)",
   "\x7d",
   "",
   "type ReadCloser interface \x7b",
   "\tReader",
   "\tClose() error",
   "\x7d",
   "",
   "var EOF error",
   "",
   "func ReadAll(r Reader) ([]byte, error)",
   "func Copy(dst Writer, src Reader) (written int64, err error)"]

def logSource : List String :=
  ["package log",
   "",
   "func Print(v ...any)",
   "func Printf(format string, v ...any)",
   "func Println(v ...any)",
   "func Fatal(v ...any)",
   "func Fatalf(format string, v ...any)",
   "func Fatalln(v ...any)",
   "func Panic(v ...any)",
   "func Panicf(format string, v ...any)"]

def logSlogSource : List String :=
  ["package slog",
   "",
   "import (",
   "\t\"context\"",
   "\t\"io\"",
   ")",
   "",
   "type Level int",
   "type Record struct\x7b\x7d",
   "type Attr struct\x7b\x7d",
   "type HandlerOptions struct\x7b\x7d",
   "type Logger struct\x7b\x7d",
   "type TextHandler struct\x7b\x7d",
   "type JSONHandler struct\x7b\x7d",
   "",
   "type Handler interface \x7b",
   "\tEnabled(ctx context.Context, level Level) bool",
   "\tHandle(ctx context.Context, r Record) error",
   "\tWithAttrs(attrs []Attr) Handler",
   "\tWithGroup(name string) Handler",
   "\x7d",
   "",
   "func NewTextHandler(w io.Writer, opts *HandlerOptions) *TextHandler",
   "func NewJSONHandler(w io.Writer, opts *HandlerOptions) *JSONHandler",
   "func New(h Handler) *Logger",
   "func Default() *Logger",
   "func SetDefault(l *Logger)",
   "func Debug(msg string, args ...any)",
   "func Info(msg string, args ...any)",
   "func Warn(msg string, args ...any)",
   "func Error(msg string, args ...any)",
   "func (l *Logger) Debug(msg string, args ...any)",
   "func (l *Logger) Info(msg string, args ...any)",
   "func (l *Logger) Warn(msg string, args ...any)",
   "func (l *Logger) Error(msg string, args ...any)",
   "func (l *Logger) InfoContext(ctx context.Context, msg string, args ...any)",
   "func (l *Logger) Handler() Handler"]

def netHttpSource : List String :=
  ["package http",
   "",
   "import (",
   "\t\"context\"",
   "\t\"io\"",
   "\t\"net/url\"",
   "\t\"time\"",
   ")",
   "",
   "type Header map[string][]string",
   "",
   "type Request struct \x7b",
   "\tMethod string",
   "\tURL    *url.URL",
   "\tHeader Header",
   "\tBody   io.ReadCloser",
   "\tHost   string",
   "\x7d",
   "",
   "func (r *Request) Context() context.Context",
   "func (r *Request) WithContext(ctx context.Context) *Request",
   "func (r *Request) FormValue(key string) string",
   "",
   "type Response struct \x7b",
   "\tStatus     string",
   "\tStatusCode int",
   "\tHeader     Header",
   "\tBody       io.ReadCloser",
   "\tRequest    *Request",
   "\x7d",
   "",
   "type ResponseWriter interface \x7b",
   "\tHeader() Header",
   "\tWrite(b []byte) (int, error)",
   "\tWriteHeader(statusCode int)",
   "\x7d",
   "",
   "type Handler interface \x7b",
   "\tServeHTTP(w ResponseWriter, r *Request)",
   "\x7d",
   "",
   "type HandlerFunc func(ResponseWriter, *Request)",
   "",
   "type RoundTripper interface \x7b",
   "\tRoundTrip(r *Request) (*Response, error)",
   "\x7d",
   "",
   "type Client struct \x7b",
   "\tTransport RoundTripper",
   "\tTimeout   time.Duration",
   "\x7d",
   "",
   "func (c *Client) Do(req *Request) (*Response, error)",
   "func (c *Client) Get(url string) (*Response, error)",
   "func (c *Client) Head(url string) (*Response, error)",
   "func (c *Client) Post(url, contentType string, body io.Reader) (*Response, error)",
   "",
   "type ServeMux struct\x7b\x7d",
   "",
   "func NewServeMux() *ServeMux",
   "func (mux *ServeMux) Handle(pattern string, handler Handler)",
   "func (mux *ServeMux) HandleFunc(pattern string, handler func(ResponseWriter, *Request))",
   "func (mux *ServeMux) ServeHTTP(w ResponseWriter, r *Request)",
   "",
   "type Server struct \x7b",
   "\tAddr    string",
   "\tHandler Handler",
   "\x7d",
   "",
   "func (srv *Server) ListenAndServe() error",
   "func (srv *Server) Shutdown(ctx context.Context) error",
   "",
   "var DefaultClient *Client",
   "var DefaultServeMux *ServeMux",
   "",
   "func Handle(pattern string, handler Handler)",
   "func HandleFunc(pattern string, handler func(ResponseWriter, *Request))",
   "func ListenAndServe(addr string, handler Handler) error",
   "func NewRequest(method, url string, body io.Reader) (*Request, error)",
   "func NewRequestWithContext(ctx context.Context, method, url string, body io.Reader) (*Request, error)",
   "func Get(url string) (*Response, error)",
   "func Head(url string) (*Response, error)",
   "func Post(url, contentType string, body io.Reader) (*Response, error)",
   "func PostForm(url string, data url.Values) (*Response, error)",
   "func Error(w ResponseWriter, error string, code int)",
   "func NotFound(w ResponseWriter, r *Request)"]

def osSource : List String :=
  ["package os",
   "",
   "type File struct\x7b\x7d",
   "",
   "var Stdout *File",
   "var Stderr *File",
   "var Args []string",
   "",
   "func (f *File) Write(b []byte) (n int, err error)",
   "func (f *File) Close() error",
   "func Getenv(key string) string",
   "func Exit(code int)",
   "func Open(name string) (*File, error)",
   "func Create(name string) (*File, error)",
   "func ReadFile(name string) ([]byte, error)",
   "func WriteFile(name string, data []byte, perm uint32) error"]

def strconvSource : List String :=
  ["package strconv",
   "",
   "func Atoi(s string) (int, error)",
   "func Itoa(i int) string",
   "func ParseInt(s string, base int, bitSize int) (int64, error)",
   "func ParseFloat(s string, bitSize int) (float64, error)",
   "func ParseBool(str string) (bool, error)",
   "func FormatInt(i int64, base int) string"]

def timeSource : List String :=
  ["package time",
   "",
   "type Duration int64",
   "",
   "type Time struct\x7b\x7d",
   "",
   "const Nanosecond Duration = 1",
   "const Millisecond Duration = 1000000",
   "const Second Duration = 1000000000",
   "const Minute Duration = 60000000000",
   "",
   "func Now() Time",
   "func Since(t Time) Duration",
   "func Sleep(d Duration)",
   "func (t Time) Sub(u Time) Duration"]

def ginSource : List String :=
  ["package gin",
   "",
   "import \"net/http\"",
   "",
   "type RouterGroup struct\x7b\x7d",
   "",
   "type Engine struct \x7b",
   "\tRouterGroup",
   "\x7d",
   "",
   "type HandlerFunc func(*Context)",
   "",
   "type ResponseWriter interface \x7b",
   "\thttp.ResponseWriter",
   "\x7d",
   "",
   "type Context struct \x7b",
   "\tRequest *http.Request",
   "\tWriter  ResponseWriter",
   "\x7d",
   "",
   "type IRoutes interface\x7b\x7d",
   "",
   "type H map[string]any",
   "",
   "func Default() *Engine",
   "func New() *Engine",
   "func (engine *Engine) Use(middleware ...HandlerFunc) IRoutes",
   "func (engine *Engine) Run(addr ...string) error",
   "func (group *RouterGroup) GET(relativePath string, handlers ...HandlerFunc) IRoutes",
   "func (group *RouterGroup) POST(relativePath string, handlers ...HandlerFunc) IRoutes",
   "func (group *RouterGroup) PUT(relativePath string, handlers ...HandlerFunc) IRoutes",
   "func (group *RouterGroup) DELETE(relativePath string, handlers ...HandlerFunc) IRoutes",
   "func (group *RouterGroup) Group(relativePath string, handlers ...HandlerFunc) *RouterGroup",
   "func (c *Context) JSON(code int, obj any)",
   "func (c *Context) String(code int, format string, values ...any)",
   "func (c *Context) Param(key string) string",
   "func (c *Context) Query(key string) string"]

def gorillaMuxSource : List String :=
  ["package mux",
   "",
   "import \"net/http\"",
   "",
   "type Router struct\x7b\x7d",
   "type Route struct\x7b\x7d",
   "",
   "type MiddlewareFunc func(http.Handler) http.Handler",
   "",
   "func NewRouter() *Router",
   "func Vars(r *http.Request) map[string]string",
   "func (r *Router) Use(mwf ...MiddlewareFunc)",
   "func (r *Router) HandleFunc(path string, f func(http.ResponseWriter, *http.Request)) *Route",
   "func (r *Router) Handle(path string, handler http.Handler) *Route",
   "func (r *Router) ServeHTTP(w http.ResponseWriter, req *http.Request)",
   "func (r *Route) Methods(methods ...string) *Route"]

def grpcSource : List String :=
  ["package grpc",
   "",
   "import \"context\"",
   "",
   "type ClientConn struct\x7b\x7d",
   "type Server struct\x7b\x7d",
   "type DialOption interface\x7b\x7d",
   "type ServerOption interface\x7b\x7d",
   "type CallOption interface\x7b\x7d",
   "",
   "type ServerStream interface \x7b",
   "\tContext() context.Context",
   "\tSendMsg(m any) error",
   "\tRecvMsg(m any) error",
   "\x7d",
   "",
   "type ServerStreamingServer[Res any] interface \x7b",
   "\tSend(*Res) error",
   "\tServerStream",
   "\x7d",
   "",
   "type ClientStreamingServer[Req any, Res any] interface \x7b",
   "\tRecv() (*Req, error)",
   "\tSendAndClose(*Res) error",
   "\tServerStream",
   "\x7d",
   "",
   "type BidiStreamingServer[Req any, Res any] interface \x7b",
   "\tRecv() (*Req, error)",
   "\tSend(*Res) error",
   "\tServerStream",
   "\x7d",
   "",
   "func Dial(target string, opts ...DialOption) (*ClientConn, error)",
   "func DialContext(ctx context.Context, target string, opts ...DialOption) (*ClientConn, error)",
   "func NewClient(target string, opts ...DialOption) (*ClientConn, error)",
   "func NewServer(opt ...ServerOption) *Server",
   "func WithInsecure() DialOption",
   "func WithBlock() DialOption",
   "func WithTransportCredentials(creds any) DialOption",
   "func WithUnaryInterceptor(f any) DialOption",
   "func WithStreamInterceptor(f any) DialOption",
   "func UnaryInterceptor(i any) ServerOption",
   "func StreamInterceptor(i any) ServerOption",
   "func (s *Server) Serve(lis any) error",
   "func (s *Server) GracefulStop()",
   "func (s *Server) RegisterService(sd any, ss any)",
   "func (cc *ClientConn) Close() error"]

def newrelicSource : List String :=
  ["package newrelic",
   "",
   "import (",
   "\t\"context\"",
   "\t\"net/http\"",
   "\t\"time\"",
   ")",
   "",
   "type Application struct\x7b\x7d",
   "type Transaction struct\x7b\x7d",
   "type Segment struct\x7b\x7d",
   "type Config struct\x7b\x7d",
   "",
   "type ExternalSegment struct \x7b",
   "\tResponse *http.Response",
   "\x7d",
   "",
   "type ConfigOption func(*Config)",
   "",
   "func NewApplication(opts ...ConfigOption) (*Application, error)",
   "func ConfigAppName(appName string) ConfigOption",
   "func ConfigFromEnvironment() ConfigOption",
   "func ConfigLicense(license string) ConfigOption",
   "func ConfigDebugLogger(w any) ConfigOption",
   "func (app *Application) StartTransaction(name string) *Transaction",
   "func (app *Application) Shutdown(timeout time.Duration)",
   "func (app *Application) WaitForConnection(timeout time.Duration) error",
   "func (txn *Transaction) End()",
   "func (txn *Transaction) StartSegment(name string) *Segment",
   "func (txn *Transaction) NoticeError(err error)",
   "func (txn *Transaction) NewGoroutine() *Transaction",
   "func (txn *Transaction) Application() *Application",
   "func (txn *Transaction) SetName(name string)",
   "func (txn *Transaction) AddAttribute(key string, value any)",
   "func (s *Segment) End()",
   "func (s *ExternalSegment) End()",
   "func FromContext(ctx context.Context) *Transaction",
   "func NewContext(ctx context.Context, txn *Transaction) context.Context",
   "func StartExternalSegment(txn *Transaction, request *http.Request) *ExternalSegment",
   "func NewRoundTripper(inner http.RoundTripper) http.RoundTripper",
   "func RequestWithTransactionContext(req *http.Request, txn *Transaction) *http.Request",
   "func WrapHandleFunc(app *Application, pattern string, handler func(http.ResponseWriter, *http.Request)) (string, func(http.ResponseWriter, *http.Request))",
   "func WrapHandle(app *Application, pattern string, handler http.Handler) (string, http.Handler)"]

/-- The known packages by import path, each with its text. -/
def packages : List (String × String) :=
  [("context", contextSource),
   ("database/sql", databaseSqlSource),
   ("encoding/json", encodingJsonSource),
   ("errors", errorsSource),
   ("fmt", fmtSource),
   ("io", ioSource),
   ("log", logSource),
   ("log/slog", logSlogSource),
   ("net/http", netHttpSource),
   ("os", osSource),
   ("strconv", strconvSource),
   ("time", timeSource),
   ("github.com/gin-gonic/gin", ginSource),
   ("github.com/gorilla/mux", gorillaMuxSource),
   ("google.golang.org/grpc", grpcSource),
   ("github.com/newrelic/go-agent/v3/newrelic", newrelicSource)].map
    fun (path, lines) => (path, String.join (lines.map (· ++ "\n")))

def typeNames : List String :=
  ["any", "bool", "byte", "comparable", "complex64", "complex128", "error", "float32", "float64",
   "int", "int8", "int16", "int32", "int64", "rune", "string", "uint", "uint8", "uint16", "uint32",
   "uint64", "uintptr"]

def functionNames : List String :=
  ["append", "cap", "clear", "close", "complex", "copy", "delete", "imag", "len", "make", "max",
   "min", "new", "panic", "print", "println", "real", "recover"]

def constantNames : List String := ["true", "false", "iota", "nil"]

end TraceWeave.Types.Known
