import ModuleScripts.Text.Basic

/-!
# The bundled AMD loader

The script that defines `define` and loads modules written as AMD definitions.
-/

namespace ModuleScripts.Polyfill

/-- The lines of the AMD loader. -/
def loaderLines : List String := [
  "/**",
  " * Minimal AMD loader for modules converted from ES module syntax.",
  " *",
  " * - Top-level `define(deps, factory)` calls from inline scripts run in",
  " *   document order, each after the previous one has finished.",
  " * - Dependencies are loaded with <script> tags; every loaded file must make",
  " *   exactly one anonymous `define()` call.",
  " * - Special dependencies: \"exports\", \"require\", \"meta\".",
  " */",
  "(function (global) \x7b",
  "  'use strict';",
  "",
  "  if (global.define && global.define.esmAmdLoader) \x7b",
  "    return;",
  "  \x7d",
  "",
  "  var registry = Object.create(null);",
  "  var pendingDefine = null;",
  "  var topLevelQueue = Promise.resolve();",
  "  var anonymousCounter = 0;",
  "",
  "  function resolveUrl(specifier, base) \x7b",
  "    try \x7b",
  "      return new URL(specifier, base).href;",
  "    \x7d catch (e) \x7b",
  "      return specifier;",
  "    \x7d",
  "  \x7d",
  "",
  "  function Module(url) \x7b",
  "    this.url = url;",
  "    this.exports = \x7b\x7d;",
  "    this.state = 'new';",
  "    this.deps = [];",
  "    this.factory = null;",
  "    var self = this;",
  "    this.ready = new Promise(function (resolve, reject) \x7b",
  "      self.resolve = resolve;",
  "      self.reject = reject;",
  "    \x7d);",
  "  \x7d",
  "",
  "  function getModule(url) \x7b",
  "    var module = registry[url];",
  "    if (!module) \x7b",
  "      module = registry[url] = new Module(url);",
  "    \x7d",
  "    return module;",
  "  \x7d",
  "",
  "  function loadScript(module) \x7b",
  "    module.state = 'loading';",
  "    var script = document.createElement('script');",
  "    script.src = module.url;",
  "    script.onload = function () \x7b",
  "      var defined = pendingDefine;",
  "      pendingDefine = null;",
  "      if (!defined) \x7b",
  "        module.reject(new Error('Module did not call define(): ' + module.url));",
  "        return;",
  "      \x7d",
  "      instantiate(module, defined.deps, defined.factory);",
  "    \x7d;",
  "    script.onerror = function () \x7b",
  "      module.reject(new Error('Failed to load module: ' + module.url));",
  "    \x7d;",
  "    document.head.appendChild(script);",
  "  \x7d",
  "",
  "  function importModule(url) \x7b",
  "    var module = getModule(url);",
  "    if (module.state === 'new') \x7b",
  "      loadScript(module);",
  "    \x7d",
  "    return module;",
  "  \x7d",
  "",
  "  function instantiate(module, deps, factory) \x7b",
  "    module.state = 'instantiating';",
  "    var args = [];",
  "    var waits = [];",
  "    for (var i = 0; i < deps.length; i++) \x7b",
  "      var dep = deps[i];",
  "      if (dep === 'exports') \x7b",
  "        args.push(module.exports);",
  "      \x7d else if (dep === 'require') \x7b",
  "        args.push(makeRequire(module.url));",
  "      \x7d else if (dep === 'meta') \x7b",
  "        args.push(\x7burl: module.url\x7d);",
  "      \x7d else \x7b",
  "        var child = importModule(resolveUrl(dep, module.url));",
  "        args.push(child.exports);",
  "        // Cycles: a module that is still instantiating is not waited on.",
  "        if (child.state !== 'instantiating') \x7b",
  "          waits.push(child.ready);",
  "        \x7d",
  "      \x7d",
  "    \x7d",
  "    Promise.all(waits).then(function () \x7b",
  "      if (typeof factory === 'function') \x7b",
  "        factory.apply(null, args);",
  "      \x7d",
  "      module.state = 'ready';",
  "      module.resolve(module.exports);",
  "    \x7d).catch(module.reject);",
  "    return module.ready;",
  "  \x7d",
  "",
  "  function makeRequire(base) \x7b",
  "    return function (deps, onResolve, onError) \x7b",
  "      var modules = deps.map(function (dep) \x7b",
  "        return importModule(resolveUrl(dep, base)).ready;",
  "      \x7d);",
  "      Promise.all(modules).then(function (exports) \x7b",
  "        if (onResolve) \x7b",
  "          onResolve.apply(null, exports);",
  "        \x7d",
  "      \x7d, onError || function (err) \x7b",
  "        setTimeout(function () \x7b throw err; \x7d);",
  "      \x7d);",
  "    \x7d;",
  "  \x7d",
  "",
  "  function define(deps, factory) \x7b",
  "    if (typeof deps === 'function') \x7b",
  "      factory = deps;",
  "      deps = [];",
  "    \x7d",
  "    deps = deps || [];",
  "    var current = document.currentScript;",
  "    if (current && current.src) \x7b",
  "      pendingDefine = \x7bdeps: deps, factory: factory\x7d;",
  "      return;",
  "    \x7d",
  "    var url = document.baseURI + '#<inline-' + (anonymousCounter++) + '>';",
  "    var module = getModule(url);",
  "    var base = document.baseURI;",
  "    var resolvedDeps = deps.map(function (dep) \x7b",
  "      return dep === 'exports' || dep === 'require' || dep === 'meta' ? dep : resolveUrl(dep, base);",
  "    \x7d);",
  "    topLevelQueue = topLevelQueue.then(function () \x7b",
  "      return instantiate(module, resolvedDeps, factory);",
  "    \x7d).catch(function (err) \x7b",
  "      setTimeout(function () \x7b throw err; \x7d);",
  "    \x7d);",
  "  \x7d",
  "",
  "  define.amd = \x7b\x7d;",
  "  define.esmAmdLoader = true;",
  "  global.define = define;",
  "\x7d)(this);"]

/-- The bundled source, in which every line ends with a line feed. -/
def loaderSource : Text := loaderLines.flatMap fun line => line.toList ++ ['\n']

end ModuleScripts.Polyfill
