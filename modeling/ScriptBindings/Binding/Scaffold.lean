import ScriptBindings.HostType
import ScriptBindings.Text.Replace

/-! The runtime scaffold: the class that loads modules and invokes their
functions, and the extension that registers it. Both are fixed texts with
slots, each slot a key in double braces. Slots are filled one after the
other, so a value may itself hold a slot that is filled later. -/
namespace ScriptBindings.Scaffold

/-- A slot of a text, as it is written there. -/
def slot (key : String) : String :=
  "\x7b\x7b" ++ key ++ "\x7d\x7d"

def fill (text : List Char) (values : List (String × String)) : List Char :=
  values.foldl
    (fun text (key, value) => Text.replace (slot key).toList value.toList text) text

def ofLines (lines : List String) : List Char :=
  lines.flatMap fun line => line.toList ++ ['\n']

/-- The usings of the scaffold, whatever is configured. -/
def usings (serviceExtension : Bool) : List String :=
  ["System", "System.Collections.Generic", "System.Threading", "System.Threading.Tasks",
    "Microsoft.JSInterop"] ++
    if serviceExtension then ["Microsoft.Extensions.DependencyInjection"] else []

def runtimeLines : List String :=
  ["\x7b\x7bheader\x7d\x7d",
    "namespace \x7b\x7bnamespace\x7d\x7d;",
    "",
    "/// <summary>",
    "/// Marks a generic parameter declared as <c>keyof T</c> in TypeScript.",
    "/// </summary>",
    "/// <typeparam name=\"T\">The type whose property names are accepted.</typeparam>",
    "public interface \x7b\x7bkey_of\x7d\x7d<T> \x7b \x7d",
    "",
    "/// <summary>",
    "/// Loads JavaScript modules on demand and invokes their exported functions.",
    "/// </summary>",
    "public sealed partial class \x7b\x7bclass\x7d\x7d : \x7b\x7binterface\x7d\x7d, IDisposable, IAsyncDisposable",
    "\x7b",
    "    private readonly IJSRuntime jsRuntime;",
    "    private readonly CancellationTokenSource cancellationTokenSource = new();",
    "    private readonly Dictionary<string, Task<IJSObjectReference>> modules = new();",
    "    private readonly object modulesLock = new();",
    "",
    "    public \x7b\x7bclass\x7d\x7d(IJSRuntime jsRuntime)",
    "    \x7b",
    "        this.jsRuntime = jsRuntime;",
    "    \x7d",
    "",
    "    private Task<IJSObjectReference> GetOrLoadModule(string url)",
    "    \x7b",
    "        lock (modulesLock)",
    "        \x7b",
    "            if (modules.TryGetValue(url, out Task<IJSObjectReference>? module) && !module.IsFaulted && !module.IsCanceled)",
    "                return module;",
    "",
    "            module = jsRuntime.InvokeAsync<IJSObjectReference>(\"import\", cancellationTokenSource.Token, url).AsTask();",
    "            modules[url] = module;",
    "            return module;",
    "        \x7d",
    "    \x7d",
    "",
    "    private TResult TSInvoke<TResult>(string url, string identifier, params object?[]? args)",
    "    \x7b",
    "        Task<IJSObjectReference> module = GetOrLoadModule(url);",
    "        if (!module.IsCompletedSuccessfully)",
    "            throw new InvalidOperationException($\"JS module '\x7burl\x7d' is not loaded yet. Preload it before invoking '\x7bidentifier\x7d' synchronously.\");",
    "        if (module.Result is not IJSInProcessObjectReference inProcessModule)",
    "            throw new InvalidOperationException($\"JS module '\x7burl\x7d' does not support synchronous invocation.\");",
    "",
    "        return inProcessModule.Invoke<TResult>(identifier, args);",
    "    \x7d",
    "",
    "    private async ValueTask<TResult> TSInvokeTrySync<TResult>(string url, string identifier, CancellationToken cancellationToken, params object?[]? args)",
    "    \x7b",
    "        IJSObjectReference module = await GetOrLoadModule(url);",
    "        if (module is IJSInProcessObjectReference inProcessModule)",
    "            return inProcessModule.Invoke<TResult>(identifier, args);",
    "",
    "        return await module.InvokeAsync<TResult>(identifier, cancellationToken, args);",
    "    \x7d",
    "",
    "    private async ValueTask<TResult> TSInvokeAsync<TResult>(string url, string identifier, CancellationToken cancellationToken, params object?[]? args)",
    "    \x7b",
    "        IJSObjectReference module = await GetOrLoadModule(url);",
    "        return await module.InvokeAsync<TResult>(identifier, cancellationToken, args);",
    "    \x7d",
    "",
    "    public void Dispose()",
    "    \x7b",
    "        cancellationTokenSource.Cancel();",
    "        cancellationTokenSource.Dispose();",
    "",
    "        lock (modulesLock)",
    "        \x7b",
    "            foreach (Task<IJSObjectReference> module in modules.Values)",
    "                if (module.IsCompletedSuccessfully)",
    "                    _ = module.Result.DisposeAsync().AsTask();",
    "            modules.Clear();",
    "        \x7d",
    "    \x7d",
    "",
    "    public async ValueTask DisposeAsync()",
    "    \x7b",
    "        cancellationTokenSource.Cancel();",
    "        cancellationTokenSource.Dispose();",
    "",
    "        List<Task<IJSObjectReference>> loaded;",
    "        lock (modulesLock)",
    "        \x7b",
    "            loaded = new List<Task<IJSObjectReference>>(modules.Values);",
    "            modules.Clear();",
    "        \x7d",
    "",
    "        foreach (Task<IJSObjectReference> module in loaded)",
    "            if (module.IsCompletedSuccessfully)",
    "                await module.Result.DisposeAsync();",
    "    \x7d",
    "\x7d"]

def extensionLines : List String :=
  ["",
    "/// <summary>",
    "/// Registers <see cref=\"\x7b\x7bclass\x7d\x7d\"/> with dependency injection.",
    "/// </summary>",
    "public static class \x7b\x7bclass\x7d\x7dServiceExtension",
    "\x7b",
    "    /// <summary>",
    "    /// Adds <see cref=\"\x7b\x7bclass\x7d\x7d\"/> as a scoped service, also resolvable as <see cref=\"\x7b\x7binterface\x7d\x7d\"/>.",
    "    /// </summary>",
    "    public static IServiceCollection Add\x7b\x7bclass\x7d\x7d(this IServiceCollection services)",
    "    \x7b",
    "        services.AddScoped<\x7b\x7bclass\x7d\x7d>();",
    "        services.AddScoped<\x7b\x7binterface\x7d\x7d>(serviceProvider => serviceProvider.GetRequiredService<\x7b\x7bclass\x7d\x7d>());",
    "        return services;",
    "    \x7d",
    "\x7d"]

/-- Write the scaffold. It depends on the settings and on no module. -/
def render (header hostNamespace className interfaceName : String) (serviceExtension : Bool) :
    String :=
  let values := [("header", header), ("namespace", hostNamespace), ("class", className),
    ("interface", interfaceName), ("key_of", keyOfInterface)]
  String.ofList (fill (ofLines runtimeLines) values ++
    if serviceExtension then fill (ofLines extensionLines) values else [])

end ScriptBindings.Scaffold
